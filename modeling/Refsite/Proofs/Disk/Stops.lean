import Refsite.Proofs.Disk.Runs
namespace Refsite

namespace Failure

/-- Failures of what a run is given: its settings, its dump and its tutorials. -/
def isGiven : Failure → Bool
  | config _ | input _ => true
  | _ => false

def isLink : Failure → Bool
  | link _ => true
  | _ => false

def isLate (f : Failure) : Bool := !f.isGiven && !f.isLink

theorem isLate_iff {f : Failure} : f.isLate = true ↔ f.isGiven = false ∧ f.isLink = false := by
  rw [isLate, Bool.and_eq_true, Bool.not_eq_true', Bool.not_eq_true']

end Failure

namespace Run

variable {α β ε : Type} {P Q : Failure → Prop}

/-- A run that stops at some failures only. -/
def StopsAt (P : Failure → Prop) (x : Run α) : Prop :=
  ∀ w f w', x.start w = (.error f, w') → P f

theorem StopsAt.mono {x : Run α} (hx : x.StopsAt P) (hPQ : ∀ f, P f → Q f) : x.StopsAt Q :=
  fun w f w' h => hPQ f (hx w f w' h)

/-- Stopping at some failures only. -/
def stopping (P : Failure → Prop) : Invariant where
  Holds w x := ∀ f v, x.start w = (.error f, v) → P f
  pure _ _ _ _ h := by cases h
  bind {_ _ x _ w} hx hg f v h := by
    rw [start_bind] at h
    cases hrun : x.start w with
    | mk result u =>
      rw [hrun] at h
      cases result with
      | error e =>
        cases h
        exact hx _ _ hrun
      | ok a => exact hg a u hrun f v h

theorem StopsAt.bind {x : Run α} {g : α → Run β} (hx : x.StopsAt P) (hg : ∀ a, (g a).StopsAt P) :
    (x >>= g).StopsAt P := fun w => (stopping P).bind (hx w) fun a u _ => hg a u

theorem stops_pure (a : α) : StopsAt P (pure a : Run α) := by
  intro w f w' h
  cases h

theorem stops_fail {f : Failure} (hf : P f) : StopsAt P (fail f : Run α) := by
  intro w g w' h
  cases h
  exact hf

theorem stops_disk : StopsAt P disk := by
  intro w f w' h
  cases h

theorem stops_remark (r : Remark) : StopsAt P (remark r) := by
  intro w f w' h
  cases h

theorem stops_remarkAll (rs : List Remark) : StopsAt P (remarkAll rs) := by
  intro w f w' h
  cases h

theorem stops_setDisk (d : Disk) : StopsAt P (setDisk d) := by
  intro w f w' h
  cases h

theorem stops_print (s : String) : StopsAt P (print s) := by
  intro w f w' h
  cases h

theorem stops_ofExcept {failure : ε → Failure} {x : Except ε α}
    (h : ∀ e, x = .error e → P (failure e)) : (ofExcept failure x).StopsAt P := by
  cases x with
  | error e => exact stops_fail (h e rfl)
  | ok a => exact stops_pure a

/-- A run whose failures are none of what it is given, and none of links. -/
abbrev StopsLate (x : Run α) : Prop := x.StopsAt fun f => f.isLate = true

abbrev Links (x : Run α) : Prop := x.StopsAt fun f => f.isLink = false

theorem StopsLate.links {x : Run α} (hx : x.StopsLate) : x.Links :=
  hx.mono fun _ hf => (Failure.isLate_iff.mp hf).2

theorem late_disk (x : Except DiskError α) : (ofExcept .disk x).StopsLate :=
  stops_ofExcept fun _ _ => rfl

theorem late_decode (x : Except Text.DecodeFault α) : (ofExcept .decode x).StopsLate :=
  stops_ofExcept fun _ _ => rfl

theorem late_misfit (x : Except Misfit α) : (ofExcept .misfit x).StopsLate :=
  stops_ofExcept fun _ _ => rfl

theorem late_ignore (x : Except IgnoreError α) : (ofExcept .ignore x).StopsLate :=
  stops_ofExcept fun _ _ => rfl

theorem late_change (f : Disk → Except DiskError Disk) : (change f).StopsLate :=
  stops_disk.bind fun _ => (late_disk _).bind fun d => stops_setDisk d

theorem late_look (p : Path) : (look p).StopsLate :=
  stops_disk.bind fun _ => late_disk _

theorem late_isFile (p : Path) : (isFile p).StopsLate :=
  (late_look p).bind fun _ => stops_pure _

theorem late_isDirectory (p : Path) : (isDirectory p).StopsLate :=
  (late_look p).bind fun _ => stops_pure _

theorem late_write (p : Path) (bytes : List UInt8) : (write p bytes).StopsLate :=
  (late_change _).bind fun _ => late_change _

theorem late_copy (source target : Path) : (copy source target).StopsLate :=
  (late_change _).bind fun _ => late_change _

theorem late_readText [Text.Codecs] (p : Path) (encoding : String) :
    (readText p encoding).StopsLate := by
  rw [readText_eq]
  refine stops_disk.bind fun d => stops_ofExcept fun e he => ?_
  unfold textOf at he
  split at he
  · cases he
    rfl
  · split at he
    · cases he
      rfl
    · cases he
      rfl
    · split at he
      · cases he
        rfl
      · cases he

/-- A run that never stops at a link, and that has left the disk alone where it stops at what it is
given. -/
structure Careful (x : Run α) : Prop where
  links : x.Links
  untouched : ∀ {w f w'}, x.start w = (.error f, w') → f.isGiven = true → w'.disk = w.disk

theorem StopsLate.careful {x : Run α} (hx : x.StopsLate) : x.Careful := by
  refine ⟨hx.links, fun h hgiven => ?_⟩
  rw [(Failure.isLate_iff.mp (hx _ _ _ h)).1] at hgiven
  cases hgiven

theorem Reads.careful {x : Run α} (hx : x.Reads) (hlinks : x.Links) : x.Careful :=
  ⟨hlinks, fun h _ => hx.disk_eq h⟩

/-- What is done after reading only has to be careful itself. -/
theorem Careful.after {x : Run α} {g : α → Run β} (hx : x.Reads) (hlinks : x.Links)
    (hg : ∀ a, (g a).Careful) : (x >>= g).Careful := by
  refine ⟨hlinks.bind fun a => (hg a).links, ?_⟩
  intro w f w' h hgiven
  rw [start_bind] at h
  cases hrun : x.start w with
  | mk result v =>
    rw [hrun] at h
    cases result with
    | error e =>
      cases h
      exact hx.disk_eq hrun
    | ok a => exact ((hg a).untouched h hgiven).trans (hx.disk_eq hrun)

end Run

end Refsite
