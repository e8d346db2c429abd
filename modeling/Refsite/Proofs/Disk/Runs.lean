import Refsite.Proofs.Disk.Changes
import Refsite.Proofs.Run
namespace Refsite.Run

variable {α β ε : Type} {w w' : World} {p source target : Path}

/-- What holds of runs that start on some world, and of all that is put together of such runs. -/
structure Invariant where
  Holds : {α : Type} → World → Run α → Prop
  pure : ∀ {α : Type} (w : World) (a : α), Holds w (pure a)
  bind : ∀ {α β : Type} {x : Run α} {f : α → Run β} {w : World}, Holds w x →
    (∀ a u, x.start w = (.ok a, u) → Holds u (f a)) → Holds w (x >>= f)

/-- How runs are related, by the results that they come to and the world that the first starts on:
parts that are related make wholes that are. -/
structure Logic where
  Holds : {α β : Type} → (α → β → Prop) → World → Run α → Run β → Prop
  pure : ∀ {α β : Type} {R : α → β → Prop} {a : α} {b : β} (w : World), R a b →
    Holds R w (pure a) (pure b)
  bind : ∀ {α β γ δ : Type} {R : α → β → Prop} {S : γ → δ → Prop} {x : Run α} {y : Run β}
    {f : α → Run γ} {g : β → Run δ} {w : World}, Holds R w x y →
    (∀ a b u, x.start w = (.ok a, u) → R a b → Holds S u (f a) (g b)) →
    Holds S w (x >>= f) (y >>= g)

def Invariant.logic (I : Invariant) : Logic where
  Holds R w x _ := I.Holds w x ∧ ∀ a u, x.start w = (.ok a, u) → ∃ b, R a b
  pure w hR := ⟨I.pure w _, fun a u h => ⟨_, (of_start_pure h).1 ▸ hR⟩⟩
  bind {_ _ _ _ R S x y f g w} hx hf := by
    constructor
    · refine I.bind hx.1 fun a u h => ?_
      obtain ⟨b, hb⟩ := hx.2 a u h
      exact (hf a b u h hb).1
    · intro c v h
      obtain ⟨a, u, hfirst, hrest⟩ := of_start_bind h
      obtain ⟨b, hb⟩ := hx.2 a u hfirst
      exact (hf a b u hfirst hb).2 c v hrest

namespace Logic

variable (L : Logic)

abbrev Along (w : World) (x : Run α) (y : Run β) : Prop := L.Holds (fun _ _ => True) w x y

abbrev Alike (w : World) (x y : Run α) : Prop := L.Holds Eq w x y

end Logic

namespace Invariant

variable {I : Invariant} {x : Run α}

theorem along (h : I.Holds w x) : I.logic.Along w x x := ⟨h, fun a _ _ => ⟨a, trivial⟩⟩

theorem alike (h : I.Holds w x) : I.logic.Alike w x x := ⟨h, fun a _ _ => ⟨a, rfl⟩⟩

end Invariant

/-- A run that leaves the disk as it is, whether it comes to a result or not. -/
def Reads (x : Run α) : Prop := ∀ w, (x.start w).2.disk = w.disk

theorem Reads.disk_eq {x : Run α} (h : x.Reads) {result : Except Failure α}
    (hrun : x.start w = (result, w')) : w'.disk = w.disk := by
  have := h w
  rwa [hrun] at this

/-- Leaving the disk as it is. -/
def reading : Invariant where
  Holds w x := (x.start w).2.disk = w.disk
  pure _ _ := rfl
  bind {_ _ x _ w} hx hf := by
    rw [start_bind]
    cases hrun : x.start w with
    | mk result u =>
      rw [hrun] at hx
      cases result with
      | error e => exact hx
      | ok a => exact (hf a u hrun).trans hx

theorem Reads.bind {x : Run α} {f : α → Run β} (hx : x.Reads) (hf : ∀ a, (f a).Reads) :
    (x >>= f).Reads := fun w => reading.bind (hx w) fun a u _ => hf a u

theorem reads_pure (a : α) : (pure a : Run α).Reads := fun _ => rfl

theorem reads_fail (f : Failure) : (fail f : Run α).Reads := fun _ => rfl

theorem reads_disk : disk.Reads := fun _ => rfl

theorem reads_remark (r : Remark) : (remark r).Reads := fun _ => rfl

theorem reads_remarkAll (rs : List Remark) : (remarkAll rs).Reads := fun _ => rfl

theorem reads_print (s : String) : (print s).Reads := fun _ => rfl

theorem reads_ofExcept (failure : ε → Failure) (x : Except ε α) : (ofExcept failure x).Reads := by
  cases x with
  | error e => exact reads_fail _
  | ok a => exact reads_pure a

theorem reads_look (p : Path) : (look p).Reads := reads_disk.bind fun _ => reads_ofExcept _ _

theorem reads_isFile (p : Path) : (isFile p).Reads := (reads_look p).bind fun _ => reads_pure _

theorem reads_isDirectory (p : Path) : (isDirectory p).Reads :=
  (reads_look p).bind fun _ => reads_pure _

theorem of_start_isFile {isFile : Bool} (h : (Run.isFile p).start w = (.ok isFile, w')) :
    isFile = w.disk.isFile p ∧ w = w' := by
  obtain ⟨entry, v, hlook, h⟩ := of_start_bind h
  obtain ⟨rfl, rfl⟩ := of_start_pure h
  obtain ⟨d, _, hdisk, hlook⟩ := of_start_bind hlook
  obtain ⟨rfl, rfl⟩ := of_start_disk hdisk
  obtain ⟨hentry, rfl⟩ := of_start_ofExcept hlook
  exact ⟨by rw [Disk.isFile, Disk.find?_of_look hentry], rfl⟩

section Codecs

variable [Text.Codecs]

/-- The text of a file whose bytes were read, if they could be. -/
def textOf (encoding : String) (bytes : Except DiskError (List UInt8)) : Except Failure String :=
  if encoding.toList.contains '\x00' then .error .encodingName
  else
    match bytes, Text.Encoding.ofName? encoding with
    | .error e, _ => .error (.disk e)
    | .ok _, none => .error .unknownEncoding
    | .ok bytes, some encoding =>
      match encoding.decode bytes with
      | .error fault => .error (.decode fault)
      | .ok text => .ok (String.ofList (Text.unixLines text))

theorem readText_eq (p : Path) (encoding : String) :
    readText p encoding = disk >>= fun d => ofExcept id (textOf encoding (d.read p)) := by
  rw [readText]
  unfold textOf
  dsimp only
  by_cases hnull : encoding.toList.contains '\x00' = true
  · rw [if_pos hnull]
    simp only [if_pos hnull]
    rfl
  · rw [if_neg hnull]
    simp only [if_neg hnull]
    congr 1
    funext d
    cases d.read p with
    | error e => rfl
    | ok bytes =>
      cases Text.Encoding.ofName? encoding with
      | none => rfl
      | some encoding =>
        change ofExcept Failure.decode (encoding.decode bytes) >>= _ = _
        cases hdecode : encoding.decode bytes <;> simp only [hdecode] <;> rfl

/-- What a text reads as depends on nothing but the bytes of its file. -/
theorem readText_fst (p : Path) (encoding : String) (w : World) :
    ((readText p encoding).start w).1 = textOf encoding (w.disk.read p) := by
  rw [readText_eq, start_bind_ok (start_disk w), start_ofExcept_fst]

theorem reads_readText (p : Path) (encoding : String) : (readText p encoding).Reads := by
  rw [readText_eq]
  exact reads_disk.bind fun _ => reads_ofExcept _ _

end Codecs

theorem of_start_change {f : Disk → Except DiskError Disk} {u : Unit}
    (h : (change f).start w = (.ok u, w')) : f w.disk = .ok w'.disk := by
  obtain ⟨d, _, hdisk, h⟩ := of_start_bind h
  obtain ⟨rfl, rfl⟩ := of_start_disk hdisk
  obtain ⟨d, _, hresult, h⟩ := of_start_bind h
  obtain ⟨hd, rfl⟩ := of_start_ofExcept hresult
  cases h
  exact hd

theorem of_start_makeDirectories {u : Unit} (h : (makeDirectories p).start w = (.ok u, w')) :
    w.disk.Changes [] w'.disk ∧ w'.disk.isDirectory p = true :=
  Disk.makeDirectories_spec (of_start_change h)

theorem of_start_write {bytes : List UInt8} {u : Unit}
    (h : (write p bytes).start w = (.ok u, w')) :
    w.disk.Changes [p] w'.disk ∧ w'.disk.read p = .ok bytes ∧
      w'.disk.isDirectory p.parent = true := by
  obtain ⟨_, v, hparent, h⟩ := of_start_bind h
  obtain ⟨hmade, hdirectory⟩ := of_start_makeDirectories hparent
  obtain ⟨hchanges, hread⟩ := Disk.write_spec (of_start_change h)
  exact ⟨hmade.trans hchanges, hread, hchanges.grows.isDirectory hdirectory⟩

theorem of_start_copy {u : Unit} (h : (copy source target).start w = (.ok u, w')) :
    w.disk.Changes [target] w'.disk := by
  obtain ⟨_, v, hparent, h⟩ := of_start_bind h
  obtain ⟨hmade, -⟩ := of_start_makeDirectories hparent
  exact hmade.trans (Disk.copy_spec (of_start_change h))

theorem start_change {f : Disk → Except DiskError Disk} {d : Disk} (h : f w.disk = .ok d) :
    (change f).start w = (.ok (), { w with disk := d }) := by
  rw [change, start_bind_ok (start_disk w), h]
  rfl

theorem exists_start_bind {x : Run α} {f : α → Run β} {a : α} {b : β} {Q R : World → Prop}
    (hx : ∃ v, x.start w = (.ok a, v) ∧ Q v)
    (hf : ∀ v, Q v → ∃ w', (f a).start v = (.ok b, w') ∧ R w') :
    ∃ w', (x >>= f).start w = (.ok b, w') ∧ R w' := by
  obtain ⟨v, hstart, hv⟩ := hx
  rw [start_bind_ok hstart]
  exact hf v hv

theorem exists_start_remark (r : Remark) (w : World) :
    ∃ v, (remark r).start w = (.ok (), v) ∧ v.disk = w.disk := ⟨_, start_remark r w, rfl⟩

end Refsite.Run
