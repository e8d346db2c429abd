import Mathlib.Logic.Relation
import Refsite.Proofs.Basic
import Refsite.Proofs.Disk.Runs
import Refsite.Proofs.Disk.Tree
namespace Refsite

namespace Disk

open Refsite.Path

/-- One operation: a directory is made at some path or above it, or the file there is written. -/
inductive Step (P : Path → Prop) (d : Disk) : Disk → Prop
  | directory {q d'} (names : List String) (hq : P (q.below names))
      (h : d.makeDirectory q = .ok d') : Step P d d'
  | file {p bytes d'} (hp : P p) (h : d.write p bytes = .ok d') : Step P d d'

def Steps (P : Path → Prop) : Disk → Disk → Prop := Relation.ReflTransGen (Step P)

/-- What one operation puts where a path leads: a directory where nothing was, or a file. -/
inductive Puts (d : Disk) (q : Path) : Place → DiskEntry → Prop
  | directory {place} (hreach : d.reach false q = .ok place) (hnone : d.entry? place = none) :
      Puts d q place .directory
  | file {place} (hreach : d.reach true q = .ok place)
      (hdirectory : d.entry? place ≠ some .directory) (bytes : List UInt8) :
      Puts d q place (.file bytes)

variable {P P' : Path → Prop} {d d' d'' : Disk} {here place : Place} {names : List String}
  {base p q : Path} {bytes : List UInt8}

theorem Step.mono (h : d.Step P d') (hP : ∀ p, P p → P' p) : d.Step P' d' := by
  cases h with
  | directory names hq h => exact .directory names (hP _ hq) h
  | file hp h => exact .file (hP _ hp) h

theorem Steps.refl (d : Disk) : d.Steps P d := Relation.ReflTransGen.refl

theorem Steps.trans (h : d.Steps P d') (h' : d'.Steps P d'') : d.Steps P d'' :=
  Relation.ReflTransGen.trans h h'

theorem Step.steps (h : d.Step P d') : d.Steps P d' := Relation.ReflTransGen.single h

theorem Steps.mono (h : d.Steps P d') (hP : ∀ p, P p → P' p) : d.Steps P' d' :=
  Relation.ReflTransGen.mono (fun _ _ hstep => Step.mono hstep hP) _ _ h

theorem makeDirectory_cases (h : d.makeDirectory q = .ok d') :
    d' = d ∨ ∃ place, d.Puts q place .directory ∧ d' = d.put place .directory := by
  unfold makeDirectory at h
  split at h
  · cases h
  · next place hreach =>
    split at h
    · next hnone => exact .inr ⟨place, .directory hreach hnone, (Except.ok.inj h).symm⟩
    · split at h
      · exact .inl (Except.ok.inj h).symm
      · cases h

theorem write_cases (h : d.write p bytes = .ok d') :
    ∃ place, d.Puts p place (.file bytes) ∧ d' = d.put place (.file bytes) := by
  unfold write at h
  split at h
  · cases h
  · next place hplace =>
    split at h
    · cases h
    · next hdirectory => exact ⟨place, .file hplace hdirectory bytes, (Except.ok.inj h).symm⟩

/-- All that one operation can do. Only a file can be put at the last of the path's names. -/
theorem Step.cases (h : d.Step P d') :
    d' = d ∨ ∃ q names place entry, P (q.below names) ∧ (entry = .directory ∨ names = []) ∧
      d.Puts q place entry ∧ d' = d.put place entry := by
  cases h with
  | directory names hq h =>
    refine (makeDirectory_cases h).imp_right fun ⟨place, hputs, hput⟩ => ?_
    exact ⟨_, names, place, _, hq, .inl rfl, hputs, hput⟩
  | file hp h =>
    obtain ⟨place, hputs, hput⟩ := write_cases h
    exact .inr ⟨_, [], place, _, by rwa [below_nil], .inr rfl, hputs, hput⟩

theorem Puts.ne_nil {entry : DiskEntry} (h : d.Puts q place entry) : place ≠ [] := by
  cases h with
  | directory _ hnone => exact ne_nil_of_entry hnone nofun
  | file _ hdirectory => exact ne_nil_of_entry rfl hdirectory

theorem Puts.isTree {entry : DiskEntry} (h : d.Puts q place entry) (hd : d.IsTree)
    (hq : q.IsProper) : (d.put place entry).IsTree := by
  have hplace := h.ne_nil
  cases h with
  | directory hreach => exact hd.put_of_reach hq hreach hplace fun _ => rfl
  | file hreach hdirectory => exact hd.put_of_reach hq hreach hplace (absurd · hdirectory)

theorem Step.isTree (hP : ∀ p, P p → p.IsProper) (h : d.Step P d') (hd : d.IsTree) :
    d'.IsTree := by
  obtain rfl | ⟨q, names, place, entry, hq, -, hputs, rfl⟩ := h.cases
  · exact hd
  · exact hputs.isTree hd (hP _ hq).of_below

theorem Steps.isTree (hP : ∀ p, P p → p.IsProper) (h : d.Steps P d') (hd : d.IsTree) :
    d'.IsTree := by
  induction h with
  | refl => exact hd
  | tail _ hstep ih => exact hstep.isTree hP ih

theorem steps_makeDirectoriesFrom {above : Nat} (h : d.makeDirectoriesFrom above p = .ok d')
    (hp : P (p.below names)) : d.Steps P d' := by
  induction above generalizing p d' names with
  | zero => exact (Step.directory _ hp h).steps
  | succ above ih =>
    obtain hmade | ⟨d₁, hparents, hmade⟩ := makeDirectoriesFrom_cases h
    · exact (Step.directory _ hp hmade).steps
    · obtain ⟨last, hlast⟩ := p.exists_below_parent
      have habove : P (p.parent.below (last ++ names)) := by
        rwa [below_append, ← hlast]
      exact (ih hparents habove).trans (Step.directory _ hp hmade).steps

theorem steps_makeDirectories (h : d.makeDirectories p = .ok d') (hp : P (p.below names)) :
    d.Steps P d' := steps_makeDirectoriesFrom h hp

/-- No link stands on the way to a place, at it or below it. -/
def IsClear (d : Disk) (place : Place) : Prop :=
  ∀ q, (q <+: place ∨ place <+: q) → ∀ target, d.entry? q ≠ some (.link target)

theorem isClear_of_entries (h : ∀ e ∈ d.entries, ∀ target, e.2 ≠ .link target) (place : Place) :
    d.IsClear place :=
  fun _ _ target hq => h _ (mem_of_entry hq (ne_nil_of_entry hq nofun)) target rfl

/-- Outside of a directory nothing has changed, but for directories that were made on the way. -/
def KeepsOutside (directory : Place) (d d' : Disk) : Prop :=
  ∀ place, (¬ directory <+: place ∨ place = directory) →
    d'.entry? place = d.entry? place ∨
      place <+: directory ∧ d.entry? place = none ∧ d'.entry? place = some .directory

theorem Leads.eq_append {through : Bool} {links : Nat}
    (h : d.Leads through links here names place)
    (hnames : ∀ name ∈ names, name ≠ Path.up)
    (hclear : ∀ init, init <+: here ++ names → ∀ target, d.entry? init ≠ some (.link target)) :
    place = here ++ names := by
  have hfirst : ∀ {here : Place} {name : String} {rest},
      here ++ [name] <+: here ++ name :: rest := fun {here name rest} =>
    ⟨rest, by rw [List.append_assoc, List.singleton_append]⟩
  induction h with
  | done => rw [List.append_nil]
  | up => exact absurd rfl (hnames _ List.mem_cons_self)
  | atLink => rfl
  | follow _ _ _ hlink => exact absurd hlink (hclear _ hfirst _)
  | @down _ here name rest _ _ _ _ _ _ ih =>
    have hnext : here ++ [name] ++ rest = here ++ name :: rest := by
      rw [List.append_assoc, List.singleton_append]
    rw [← hnext]
    exact ih (List.forall_mem_cons.mp hnames).2 (by rwa [hnext])

theorem eq_names_of_reach {through : Bool} (h : d.reach through p = .ok place)
    (hnames : ∀ name ∈ p.names, name ≠ Path.up)
    (hclear : ∀ init, init <+: p.names → ∀ target, d.entry? init ≠ some (.link target)) :
    place = p.names := by
  obtain ⟨-, -, hleads⟩ := of_reach_ok h
  exact hleads.eq_append hnames hclear

theorem IsClear.put {entry : DiskEntry} (h : d.IsClear place) {q : Place} (hq : q ≠ [])
    (hentry : ∀ target, entry ≠ .link target) : (d.put q entry).IsClear place := by
  intro r hr target
  rw [entry?_put d hq]
  split
  · exact fun heq => hentry target (Option.some.inj heq)
  · exact h r hr target

variable (hbase : ∀ name ∈ base.names, name ≠ Path.up)

include hbase

/-- A step inside a directory that no link touches changes what is inside, or makes a directory on
the way there. -/
theorem Step.inside (h : d.Step base.Inside d') (hclear : d.IsClear base.names) :
    d'.IsClear base.names ∧ KeepsOutside base.names d d' := by
  obtain rfl | ⟨q, names, place, entry, ⟨inner, hinner, hnames, heq⟩, hlast, hputs, rfl⟩ := h.cases
  · exact ⟨hclear, fun _ _ => .inl rfl⟩
  have heqNames : q.names ++ names = base.names ++ inner := congrArg Path.names heq
  have hwhole : ∀ name ∈ q.names ++ names, name ≠ Path.up := by
    rw [heqNames]
    intro name hname
    obtain hname | hname := List.mem_append.mp hname
    · exact hbase name hname
    · exact (hnames name hname).2
  have hplace : place = q.names := by
    have hto : ∀ {through}, d.reach through q = .ok place → place = q.names := by
      intro through hreach
      refine eq_names_of_reach hreach (fun name hname => hwhole name (List.mem_append_left _ hname))
        fun init hinit => hclear init ?_
      have hinit := hinit.trans (List.prefix_append q.names names)
      rw [heqNames] at hinit
      exact List.prefix_or_prefix_of_prefix hinit (List.prefix_append _ _)
    cases hputs with
    | directory hreach => exact hto hreach
    | file hreach => exact hto hreach
  refine ⟨hclear.put hputs.ne_nil ?_, fun r hr => ?_⟩
  · cases hputs <;> nofun
  rw [entry?_put d hputs.ne_nil]
  split
  · next hr' =>
    subst hr' hplace
    have habove : q.names <+: base.names := by
      have hboth := heqNames ▸ List.prefix_append q.names names
      obtain habove | habove := List.prefix_or_prefix_of_prefix hboth (List.prefix_append _ _)
      · exact habove
      · obtain hr | hr := hr
        · exact absurd habove hr
        · exact hr ▸ List.prefix_rfl
    cases hputs with
    | directory _ hnone => exact .inr ⟨habove, hnone, rfl⟩
    | file =>
      -- A file is put at the whole path, which goes on from the directory.
      obtain hlast | rfl := hlast
      · cases hlast
      · rw [List.append_nil] at heqNames
        have hlength := habove.length_le
        rw [heqNames, List.length_append] at hlength
        exact absurd (List.length_eq_zero_iff.mp (by omega)) hinner
  · exact .inl rfl

theorem Steps.inside (h : d.Steps base.Inside d') (hclear : d.IsClear base.names) :
    d'.IsClear base.names ∧ KeepsOutside base.names d d' := by
  induction h with
  | refl => exact ⟨hclear, fun _ _ => .inl rfl⟩
  | tail _ hstep ih =>
    obtain ⟨hmiddle, hbefore⟩ := ih
    obtain ⟨hafter, hlast⟩ := hstep.inside hbase hmiddle
    refine ⟨hafter, fun place hplace => ?_⟩
    obtain heq | ⟨habove, hnone, hmade⟩ := hlast place hplace
    · rw [heq]
      exact hbefore place hplace
    · obtain heq | ⟨-, -, hdirectory⟩ := hbefore place hplace
      · exact .inr ⟨habove, heq ▸ hnone, hmade⟩
      · rw [hdirectory] at hnone
        cases hnone

end Disk

namespace Run

variable {α β ε : Type} {P : Path → Prop} {Q Q' : α → Prop} {R : β → Prop} {w w' : World}
  {p source target : Path}

/-- A run that writes at some paths only, also where it fails, and whose results have a property. -/
def Confined (P : Path → Prop) (Q : α → Prop) (x : Run α) : Prop :=
  ∀ w, w.disk.IsTree →
    w.disk.Steps P (x.start w).2.disk ∧ ∀ a, (x.start w).1 = .ok a → Q a

/-- A run that writes at some paths only. -/
abbrev ConfinedTo (P : Path → Prop) (x : Run α) : Prop := x.Confined P fun _ => True

theorem Confined.mono {x : Run α} (hx : x.Confined P Q) {P' : Path → Prop}
    (hP : ∀ p, P p → P' p) (hQ : ∀ a, Q a → Q' a) : x.Confined P' Q' :=
  fun w hw => ⟨(hx w hw).1.mono hP, fun a ha => hQ a ((hx w hw).2 a ha)⟩

def confining (hP : ∀ p, P p → p.IsProper) : Invariant where
  Holds w x := w.disk.IsTree → w.disk.Steps P (x.start w).2.disk
  pure _ _ _ := .refl _
  bind {_ _ x f w} hx hf hw := by
    rw [start_bind]
    cases hrun : x.start w with
    | mk result v =>
      rw [hrun] at hx
      cases result with
      | error e => exact hx hw
      | ok a => exact (hx hw).trans (hf a v hrun ((hx hw).isTree hP hw))

theorem Confined.of_start (hP : ∀ p, P p → p.IsProper) {x : Run α} (hx : x.Confined P Q) {a : α}
    {v : World} (h : x.start w = (.ok a, v)) (hw : w.disk.IsTree) : Q a ∧ v.disk.IsTree := by
  obtain ⟨hsteps, hresult⟩ := hx w hw
  rw [h] at hsteps hresult
  exact ⟨hresult a rfl, hsteps.isTree hP hw⟩

theorem Confined.bind (hP : ∀ p, P p → p.IsProper) {x : Run α} {f : α → Run β}
    (hx : x.Confined P Q) (hf : ∀ a, Q a → (f a).Confined P R) : (x >>= f).Confined P R := by
  intro w hw
  constructor
  · refine (confining hP).bind (fun hw => (hx w hw).1) (fun a v h hv => ?_) hw
    exact (hf a (hx.of_start hP h hw).1 v hv).1
  · intro b hb
    obtain ⟨a, v, h, hrest⟩ := of_start_bind (Prod.ext hb rfl)
    obtain ⟨ha, hv⟩ := hx.of_start hP h hw
    exact (hf a ha v hv).2 b (congrArg Prod.fst hrest)

theorem confined_of_holds (hP : ∀ p, P p → p.IsProper) {x : Run α}
    (hx : ∀ w, (confining hP).Holds w x) (hQ : ∀ w a v, x.start w = (.ok a, v) → Q a) :
    x.Confined P Q := fun w hw => ⟨hx w hw, fun a ha => hQ w a _ (Prod.ext ha rfl)⟩

theorem Confined.along (hP : ∀ p, P p → p.IsProper) {x : Run α} (hx : x.Confined P Q) (w : World) :
    (confining hP).logic.Along w x x := Invariant.along fun hw => (hx w hw).1

theorem Confined.alike (hP : ∀ p, P p → p.IsProper) {x : Run α} (hx : x.Confined P Q) (w : World) :
    (confining hP).logic.Alike w x x := Invariant.alike fun hw => (hx w hw).1

theorem Reads.confined {x : Run α} (hx : x.Reads) : x.ConfinedTo P :=
  fun w _ => ⟨by rw [hx w]; exact .refl _, fun _ _ => trivial⟩

theorem confined_pure {a : α} (ha : Q a) : (pure a : Run α).Confined P Q := by
  refine fun w _ => ⟨.refl _, fun b hb => ?_⟩
  cases hb
  exact ha

/-- A run that writes at some paths only, and answers with such paths. -/
abbrev Writes (P : Path → Prop) (x : Run (List Path)) : Prop :=
  x.Confined P fun paths => ∀ p ∈ paths, P p

theorem writes_nil : Writes P (pure []) := confined_pure (List.forall_mem_nil _)

theorem Writes.append (hP : ∀ p, P p → p.IsProper) {x : Run (List Path)} (hx : x.Writes P)
    {before : List Path} (hbefore : ∀ p ∈ before, P p) : Writes P (do return before ++ (← x)) :=
  hx.bind hP fun _ hpaths => confined_pure (List.forall_mem_append.mpr ⟨hbefore, hpaths⟩)

theorem confined_change {f : Disk → Except DiskError Disk}
    (hf : ∀ d d', f d = .ok d' → d.Steps P d') : (change f).ConfinedTo P := by
  refine fun w _ => ⟨?_, fun _ _ => trivial⟩
  cases hrun : f w.disk with
  | error e =>
    rw [change, start_bind_ok (start_disk w), hrun]
    exact .refl _
  | ok d =>
    rw [start_change hrun]
    exact hf _ _ hrun

theorem confined_makeDirectories {names : List String} (hp : P (p.below names)) :
    (makeDirectories p).ConfinedTo P :=
  confined_change fun _ _ h => Disk.steps_makeDirectories h hp

theorem confined_parent (hp : P p) : (makeDirectories p.parent).ConfinedTo P := by
  obtain ⟨last, hlast⟩ := p.exists_below_parent
  exact confined_makeDirectories (hlast ▸ hp)

theorem confined_write (hP : ∀ p, P p → p.IsProper) (hp : P p) (bytes : List UInt8) :
    (write p bytes).ConfinedTo P :=
  (confined_parent hp).bind hP fun _ _ =>
    confined_change fun _ _ h => (Disk.Step.file hp h).steps

theorem confined_copy (hP : ∀ p, P p → p.IsProper) (source : Path) (htarget : P target) :
    (copy source target).ConfinedTo P := by
  refine (confined_parent htarget).bind hP fun _ _ => confined_change fun d d' h => ?_
  unfold Disk.copy at h
  split at h
  · cases h
  · obtain ⟨bytes, -, hwrite⟩ := of_bind_ok h
    exact (Disk.Step.file htarget hwrite).steps

end Run

end Refsite
