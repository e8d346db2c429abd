import Refsite.Proofs.Disk.Apart
import Refsite.Proofs.Disk.Runs
namespace Refsite

/-- A tree that holds what another disk does, but for some places. -/
structure Disk.Like (bad : Place → Prop) (goal d : Disk) : Prop where
  tree : d.IsTree
  agrees : goal.AgreesBut bad d

namespace Run

variable {α β ε : Type} {bad : Place → Prop} {goal : Disk} {Q Q' : α → Prop} {R : β → Prop}
  {p : Path}

/-- Where a run comes to a result on some disk that is like `goal`, it does so on all of them, and
leaves them alone; and its results have a property. -/
def SteadyTo (bad : Place → Prop) (goal : Disk) (Q : α → Prop) (x : Run α) : Prop :=
  ∀ (w w' v : World) (a : α), goal.Like bad w.disk → goal.Like bad w'.disk →
    x.start w = (.ok a, v) →
    ∃ v', x.start w' = (.ok a, v') ∧ v.disk = w.disk ∧ v'.disk = w'.disk ∧ Q a

/-- A run with the same results on all disks that are like `goal`. -/
abbrev Steady (bad : Place → Prop) (goal : Disk) (x : Run α) : Prop :=
  x.SteadyTo bad goal fun _ => True

theorem SteadyTo.mono {x : Run α} (hx : x.SteadyTo bad goal Q) (hQ : ∀ a, Q a → Q' a) :
    x.SteadyTo bad goal Q' := by
  intro w w' v a hw hw' h
  obtain ⟨v', hstart, hv, hv', ha⟩ := hx _ _ _ _ hw hw' h
  exact ⟨v', hstart, hv, hv', hQ a ha⟩

theorem SteadyTo.bind {x : Run α} {f : α → Run β} (hx : x.SteadyTo bad goal Q)
    (hf : ∀ a, Q a → (f a).SteadyTo bad goal R) : (x >>= f).SteadyTo bad goal R := by
  intro w w' v b hw hw' h
  obtain ⟨a, u, hfirst, hrest⟩ := of_start_bind h
  obtain ⟨u', hfirst', hu, hu', ha⟩ := hx _ _ _ _ hw hw' hfirst
  obtain ⟨v', hrest', hv, hv', hb⟩ :=
    hf a ha _ _ _ _ (hu ▸ hw) (hu' ▸ hw') hrest
  exact ⟨v', by rw [start_bind_ok hfirst', hrest'], hv.trans hu, hv'.trans hu', hb⟩

/-- Coming to the same result on all disks that are like `goal`, and leaving them alone. -/
def steadying (bad : Place → Prop) (goal : Disk) : Invariant where
  Holds w x := ∀ w' v a, goal.Like bad w.disk → goal.Like bad w'.disk → x.start w = (.ok a, v) →
    ∃ v', x.start w' = (.ok a, v') ∧ v.disk = w.disk ∧ v'.disk = w'.disk
  pure w a w' v b _ _ h := by
    obtain ⟨rfl, rfl⟩ := of_start_pure h
    exact ⟨w', rfl, rfl, rfl⟩
  bind hx hf w' v b hw hw' h := by
    obtain ⟨a, u, hfirst, hrest⟩ := of_start_bind h
    obtain ⟨u', hfirst', hu, hu'⟩ := hx _ _ _ hw hw' hfirst
    obtain ⟨v', hrest', hv, hv'⟩ := hf a u hfirst _ _ _ (hu ▸ hw) (hu' ▸ hw') hrest
    exact ⟨v', by rw [start_bind_ok hfirst', hrest'], hv.trans hu, hv'.trans hu'⟩

theorem SteadyTo.alike {x : Run α} (hx : x.SteadyTo bad goal Q) (w : World) :
    (steadying bad goal).logic.Alike w x x := by
  refine Invariant.alike fun w' v a hw hw' h => ?_
  obtain ⟨v', hstart, hv, hv', -⟩ := hx _ _ _ _ hw hw' h
  exact ⟨v', hstart, hv, hv'⟩

theorem steady_of_holds {x : Run α} (hx : ∀ w, (steadying bad goal).Holds w x) :
    x.Steady bad goal := by
  intro w w' v a hw hw' h
  obtain ⟨v', hstart, hv, hv'⟩ := hx w w' v a hw hw' h
  exact ⟨v', hstart, hv, hv', trivial⟩

theorem steady_pure {a : α} (ha : Q a) : (pure a : Run α).SteadyTo bad goal Q := by
  intro w w' v b _ _ h
  obtain ⟨rfl, rfl⟩ := of_start_pure h
  exact ⟨w', rfl, rfl, rfl, ha⟩

theorem steady_fail (f : Failure) : (fail f : Run α).SteadyTo bad goal Q := by
  intro w w' v b _ _ h
  cases h

theorem steady_ofExcept {failure : ε → Failure} {x : Except ε α} (hx : ∀ a, x = .ok a → Q a) :
    (ofExcept failure x).SteadyTo bad goal Q := by
  cases x with
  | error e => exact steady_fail _
  | ok a => exact steady_pure (hx a rfl)

theorem steady_remarkAll (rs : List Remark) : (remarkAll rs).Steady bad goal := by
  intro w w' v u _ _ h
  cases h
  exact ⟨_, start_remarkAll rs w', rfl, rfl, trivial⟩

theorem steady_remark (r : Remark) : (remark r).Steady bad goal := steady_remarkAll [r]

theorem steady_disk {k : Disk → Run α} (hk : ∀ d, goal.Like bad d → (k d).SteadyTo bad goal Q)
    (hsame : ∀ d d', goal.Like bad d → goal.Like bad d' → k d' = k d) :
    (disk >>= k).SteadyTo bad goal Q := by
  intro w w' v a hw hw' h
  rw [start_bind_ok (start_disk w)] at h
  rw [start_bind_ok (start_disk w'), hsame _ _ hw hw']
  exact hk _ hw _ _ _ _ hw hw' h

theorem steady_ask {f : Disk → Except ε α} {failure : ε → Failure}
    (hsame : ∀ d d' a, goal.Like bad d → goal.Like bad d' → f d = .ok a → f d' = .ok a ∧ Q a) :
    (disk >>= fun d => ofExcept failure (f d)).SteadyTo bad goal Q := by
  intro w w' v a hw hw' h
  rw [start_bind_ok (start_disk w)] at h
  obtain ⟨ha, rfl⟩ := of_start_ofExcept h
  obtain ⟨ha', hQ⟩ := hsame _ _ _ hw hw' ha
  refine ⟨w', ?_, rfl, rfl, hQ⟩
  rw [start_bind_ok (start_disk w'), ha']
  rfl

section Apart

variable (hp : goal.Apart bad p)

include hp

theorem steady_look : (look p).Steady bad goal :=
  steady_ask fun d d' entry hd hd' h =>
    ⟨by rwa [hp.look hd'.agrees, ← hp.look hd.agrees], trivial⟩

theorem steady_isFile : (isFile p).Steady bad goal :=
  (steady_look hp).bind fun _ _ => steady_pure trivial

theorem steady_isDirectory : (isDirectory p).Steady bad goal :=
  (steady_look hp).bind fun _ _ => steady_pure trivial

theorem steady_readText [Text.Codecs] (encoding : String) : (readText p encoding).Steady bad goal := by
  rw [readText_eq]
  refine steady_ask fun d d' text hd hd' h => ⟨?_, trivial⟩
  rwa [hp.read hd'.agrees, ← hp.read hd.agrees]

end Apart

end Run

end Refsite
