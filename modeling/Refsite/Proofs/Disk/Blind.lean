import Refsite.Proofs.Disk.Runs
import Refsite.Proofs.Disk.Veil
namespace Refsite

/-- Worlds that differ at most in the bytes of files at some places, and in what was remarked. -/
structure World.Twins (hidden : Place → Bool) (w w' : World) : Prop where
  disk : w.disk.Twins hidden w'.disk
  printed : w.printed = w'.printed
  chance : w.chance = w'.chance

/-- A disk on which a path shows what it leads to has grown from others on which it does. -/
theorem Disk.Shows.of_grows {hidden : Place → Bool} {d d' : Disk} {p : Path}
    (h : d'.Shows hidden p) (hgrows : d.Grows d') : d.Shows hidden p :=
  fun place hplace => h place (hgrows.locate hplace)

namespace Run

variable {α β ε : Type} {hidden : Place → Bool} {goal : Disk} {w w' v : World}
  {p source target : Path}

/-- A run that does not depend on what is hidden where it starts on a world and comes to some
results, as long as the disk goes on to grow into `goal`. -/
structure BlindFor (hidden : Place → Bool) (goal : Disk) (w : World) (P : α → Prop) (x : Run α) :
    Prop where
  grows : ∀ {a v}, x.start w = (.ok a, v) → w.disk.Grows v.disk
  follows : ∀ {w' a v}, x.start w = (.ok a, v) → P a → v.disk.Grows goal → w.Twins hidden w' →
    ∃ v', x.start w' = (.ok a, v') ∧ v.Twins hidden v'

abbrev Blind (hidden : Place → Bool) (goal : Disk) (w : World) (x : Run α) : Prop :=
  x.BlindFor hidden goal w fun _ => True

variable {P : α → Prop} {Q : β → Prop}

theorem Blind.weaken {x : Run α} (hx : x.Blind hidden goal w) : x.BlindFor hidden goal w P :=
  ⟨hx.grows, fun h _ => hx.follows h trivial⟩

theorem BlindFor.mono {P' : α → Prop} {x : Run α} (hx : x.BlindFor hidden goal w P)
    (hP : ∀ a, P' a → P a) : x.BlindFor hidden goal w P' :=
  ⟨hx.grows, fun h ha => hx.follows h (hP _ ha)⟩

theorem BlindFor.bind {x : Run α} {f : α → Run β} (hx : x.BlindFor hidden goal w P)
    (hf : ∀ a u, x.start w = (.ok a, u) → (f a).BlindFor hidden goal u Q)
    (hPQ : ∀ {a u b v}, (f a).start u = (.ok b, v) → Q b → P a) :
    (x >>= f).BlindFor hidden goal w Q := by
  constructor
  · intro b v h
    obtain ⟨a, u, hfirst, hrest⟩ := of_start_bind h
    exact (hx.grows hfirst).trans ((hf a u hfirst).grows hrest)
  · intro w' b v h hb hgoal htwins
    obtain ⟨a, u, hfirst, hrest⟩ := of_start_bind h
    have hblind := hf a u hfirst
    have hu := (hblind.grows hrest).trans hgoal
    obtain ⟨u', hfirst', htwins⟩ := hx.follows hfirst (hPQ hrest hb) hu htwins
    obtain ⟨v', hrest', htwins⟩ := hblind.follows hrest hb hgoal htwins
    exact ⟨v', by rw [start_bind_ok hfirst', hrest'], htwins⟩

theorem Blind.bind {x : Run α} {f : α → Run β} (hx : x.Blind hidden goal w)
    (hf : ∀ a u, x.start w = (.ok a, u) → (f a).BlindFor hidden goal u Q) :
    (x >>= f).BlindFor hidden goal w Q :=
  BlindFor.bind hx hf fun _ _ => trivial

theorem blind_pure (a : α) : (pure a : Run α).Blind hidden goal w := by
  constructor
  · intro b v h
    obtain ⟨-, rfl⟩ := of_start_pure h
    exact .refl _
  · intro w' b v h _ hgoal htwins
    obtain ⟨rfl, rfl⟩ := of_start_pure h
    exact ⟨w', rfl, htwins⟩

def blinding (hidden : Place → Bool) (goal : Disk) : Invariant where
  Holds w x := x.Blind hidden goal w
  pure _ a := blind_pure a
  bind hx hf := hx.bind hf

/-- A run goes on alike after first parts of which one follows the other. -/
theorem follows_bind {x y : Run α} {f : α → Run β} {b : β}
    (h : (x >>= f).start w = (.ok b, v)) (hb : Q b) (hgoal : v.disk.Grows goal)
    (hf : ∀ a u, x.start w = (.ok a, u) → (f a).BlindFor hidden goal u Q)
    (hxy : ∀ a u, x.start w = (.ok a, u) → u.disk.Grows goal →
      ∃ u', y.start w' = (.ok a, u') ∧ u.Twins hidden u') :
    ∃ v', (y >>= f).start w' = (.ok b, v') ∧ v.Twins hidden v' := by
  obtain ⟨a, u, hfirst, hrest⟩ := of_start_bind h
  have hblind := hf a u hfirst
  obtain ⟨u', hfirst', htwins⟩ := hxy a u hfirst ((hblind.grows hrest).trans hgoal)
  obtain ⟨v', hrest', htwins⟩ := hblind.follows hrest hb hgoal htwins
  exact ⟨v', by rw [start_bind_ok hfirst', hrest'], htwins⟩

theorem blind_fail (f : Failure) : (fail f : Run α).Blind hidden goal w := by
  constructor
  · intro b v h
    cases h
  · intro w' b v h
    cases h

theorem blind_ofExcept (failure : ε → Failure) (x : Except ε α) :
    (ofExcept failure x).Blind hidden goal w := by
  cases x with
  | error e => exact blind_fail _
  | ok a => exact blind_pure a

theorem blind_remarkAll (rs : List Remark) : (remarkAll rs).Blind hidden goal w := by
  constructor
  · intro b v h
    cases h
    exact .refl _
  · intro w' b v h _ hgoal htwins
    cases h
    exact ⟨_, start_remarkAll rs w', htwins.disk, htwins.printed, htwins.chance⟩

theorem blind_remark (r : Remark) : (remark r).Blind hidden goal w := blind_remarkAll [r]

theorem blind_print (s : String) : (print s).Blind hidden goal w := by
  constructor
  · intro b v h
    cases h
    exact .refl _
  · intro w' b v h _ hgoal htwins
    cases h
    exact ⟨{ w' with printed := w'.printed ++ s }, rfl, htwins.disk,
      congrArg (· ++ s) htwins.printed, htwins.chance⟩

/-- A run that goes on from the disk in the same way where only what is hidden differs. -/
theorem blind_disk {k : Disk → Run α} (hk : ∀ d, (k d).BlindFor hidden goal w P)
    (hsame : ∀ d', w.disk.Grows goal → w.disk.Twins hidden d' → k d' = k w.disk) :
    (disk >>= k).BlindFor hidden goal w P := by
  refine ⟨(hk w.disk).grows, fun {w' a v} h ha hgoal htwins => ?_⟩
  have hrun : (k w.disk).start w = (.ok a, v) := h
  have hw := ((hk w.disk).grows hrun).trans hgoal
  obtain ⟨v', hrun', hv⟩ := (hk w.disk).follows hrun ha hgoal htwins
  refine ⟨v', ?_, hv⟩
  rw [start_bind_ok (start_disk w'), hsame _ hw htwins.disk]
  exact hrun'

theorem blind_ask {f : Disk → Except ε α} (failure : ε → Failure)
    (hsame : ∀ d', w.disk.Grows goal → w.disk.Twins hidden d' → f d' = f w.disk) :
    (disk >>= fun d => ofExcept failure (f d)).Blind hidden goal w :=
  blind_disk (fun _ => blind_ofExcept _ _) fun d' hgoal htwins => by
    rw [hsame d' hgoal htwins]

theorem look_map_eq (g : Option DiskEntry → α) (p : Path) :
    (look p >>= fun entry => pure (g entry)) =
      disk >>= fun d => ofExcept .disk ((d.look p).map g) := by
  rw [look, bind_assoc]
  congr 1
  funext d
  cases d.look p <;> rfl

theorem blind_look {g : Option DiskEntry → α} (p : Path)
    (hg : ∀ (d d' : Disk) place, d.Twins hidden d' → g (d'.entry? place) = g (d.entry? place)) :
    (look p >>= fun entry => pure (g entry)).Blind hidden goal w := by
  rw [look_map_eq]
  refine blind_ask _ fun d' hgoal htwins => ?_
  rw [Disk.look, Disk.look, htwins.alike.locate]
  cases w.disk.locate p with
  | error obstacle => cases obstacle <;> rfl
  | ok place =>
    dsimp only [Except.map]
    rw [hg w.disk d' place htwins]

theorem blind_isFile (p : Path) : (isFile p).Blind hidden goal w :=
  blind_look p fun _ _ place htwins => htwins.alike.any_isFile place

theorem blind_isDirectory (p : Path) : (isDirectory p).Blind hidden goal w := by
  refine blind_look p fun d d' place htwins => ?_
  rw [Bool.eq_iff_iff, beq_iff_eq, beq_iff_eq]
  exact htwins.alike.entry?_directory place

theorem blind_readText [Text.Codecs] (encoding : String) (hp : goal.Shows hidden p) :
    (readText p encoding).Blind hidden goal w := by
  rw [readText_eq]
  refine blind_ask _ fun d' hgoal htwins => ?_
  rw [htwins.read (hp.of_grows hgoal)]

/-- Two changes of which one follows the other on disks that differ in what is hidden. -/
theorem follows_change {f g : Disk → Except DiskError Disk} {u : Unit}
    (h : (change f).start w = (.ok u, v)) (htwins : w.Twins hidden w')
    (hsame : Disk.SameChange hidden (f w.disk) (g w'.disk)) :
    ∃ v', (change g).start w' = (.ok u, v') ∧ v.Twins hidden v' := by
  obtain ⟨d, hchange⟩ : ∃ d, f w.disk = .ok d := ⟨_, of_start_change h⟩
  obtain ⟨d', hchange', hd⟩ := hsame.exists_ok hchange
  rw [start_change hchange] at h
  cases h
  exact ⟨_, start_change hchange', hd, htwins.printed, htwins.chance⟩

theorem blind_change {f : Disk → Except DiskError Disk}
    (hgrows : ∀ {d d'}, f d = .ok d' → d.Grows d')
    (hsame : ∀ d d', d.Grows goal → d.Twins hidden d' → Disk.SameChange hidden (f d) (f d')) :
    (change f).Blind hidden goal w := by
  refine ⟨fun h => hgrows (of_start_change h), fun h _ hgoal htwins => ?_⟩
  have hstart := (hgrows (of_start_change h)).trans hgoal
  exact follows_change h htwins (hsame _ _ hstart htwins.disk)

theorem blind_makeDirectories (p : Path) : (makeDirectories p).Blind hidden goal w :=
  blind_change (fun h => (Disk.makeDirectories_spec h).1.grows)
    fun _ _ _ htwins => htwins.makeDirectories p

theorem blind_write (p : Path) (bytes : List UInt8) : (write p bytes).Blind hidden goal w :=
  (blind_makeDirectories _).bind fun _ _ _ =>
    blind_change (fun h => (Disk.write_spec h).1.grows) fun _ _ _ htwins => htwins.write (.inl rfl)

theorem follows_write {bytes : List UInt8} {u : Unit} (h : (write p bytes).start w = (.ok u, v))
    (hgoal : v.disk.Grows goal) (hp : ∀ place, goal.locate p = .ok place → hidden place = true)
    (htwins : w.Twins hidden w') (bytes' : List UInt8) :
    ∃ v', (write p bytes').start w' = (.ok u, v') ∧ v.Twins hidden v' := by
  obtain ⟨_, w₁, hmade, hwrite⟩ := of_start_bind h
  have hstart : w₁.disk.Grows goal := (Disk.write_spec (of_start_change hwrite)).1.grows.trans hgoal
  obtain ⟨w₁', hmade', htwins⟩ := (blind_makeDirectories _).follows hmade trivial hstart htwins
  rw [write, start_bind_ok hmade']
  refine follows_change hwrite htwins (htwins.disk.write (.inr fun place hplace => ?_))
  exact hp place (hstart.locate hplace)

theorem blind_copy (target : Path) (hsource : goal.Shows hidden source) :
    (copy source target).Blind hidden goal w :=
  (blind_makeDirectories _).bind fun _ _ _ =>
    blind_change (fun h => (Disk.copy_spec h).grows) fun _ _ hgoal htwins =>
      htwins.copy (hsource.of_grows hgoal)

theorem blindFor_copy (source target : Path) :
    (copy source target).BlindFor hidden goal w fun _ => goal.Shows hidden source :=
  ⟨fun h => (of_start_copy h).grows, fun h hsource => (blind_copy target hsource).follows h trivial⟩

end Run

end Refsite
