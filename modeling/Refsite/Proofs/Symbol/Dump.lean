import Refsite.Plain
import Refsite.Proofs.Symbol.Pipeline
import Refsite.Proofs.Symbol.Reread
import Refsite.Symbol.Exports
namespace Refsite

theorem Json.Entries.kept_true (es : Json.Entries) : es.kept true = es :=
  List.filter_eq_self.mpr fun _ _ => rfl

theorem TypeExpr.reread_true (t : TypeExpr) : t.reread true = t := by
  rw [reread, Json.Entries.kept_true]

theorem Origin.reread_true (o : Origin) : o.reread true = o := by
  rw [reread, Snippet.reread, Json.Entries.kept_true, Json.Entries.kept_true]

theorem Typed.reread_true (t : Typed) : t.reread true = t := by
  rw [reread, funext TypeExpr.reread_true, Option.map_id']

def Json.asMember : Json → Json
  | .object es => .object (Entries.put es "kind" (.string Kind.member.word))
  | x => x

namespace Symbol

variable {s : Symbol}

theorem asMember_of_ne (h : s.kind ≠ .constant) : s.asMember = s := by
  rw [kind] at h
  rw [asMember]
  split
  · next value hd => exact absurd (congrArg Detail.kind hd) h
  · rfl

theorem exists_typed (h : s.kind = .constant) : ∃ value, s.detail = .constant value := by
  rw [kind] at h
  cases hd : s.detail with
  | constant value => exact ⟨value, rfl⟩
  | _ =>
    rw [hd] at h
    cases h

theorem record_asMember (h : s.kind = .constant) (full : Bool) :
    s.asMember.record full = (s.record full).asMember := by
  obtain ⟨value, hd⟩ := exists_typed h
  cases s with
  | mk name longname memberof scope access description origin examples see listens fires ignore
      undocumented virtual isAsync generator version since variation attribs signature id ancestors
      detail extra =>
    subst hd
    cases full <;> rfl

theorem Clean.read_asMember (hclean : s.Clean) (h : s.kind = .constant) :
    read (s.record true).asMember = .ok s.asMember := by
  obtain ⟨value, hd⟩ := exists_typed h
  have hsame : s.asMember.reread true = s.asMember := by
    rw [Symbol.asMember, hd, reread_eq]
    simp only [Detail.reread, Typed.reread_true, funext Origin.reread_true, Option.map_id',
      Json.Entries.kept_true]
  rw [← record_asMember h, hclean.asMember.read_record, hsame]

section Serializer

variable [Serializer]

theorem dump_single (s : Symbol) : dump [s] = (serialize .symbol s.written).map fun x => [x] := by
  rw [dump, List.mapM_cons, List.mapM_nil]
  cases serialize .symbol s.written <;> rfl

theorem dump_ok {symbols : List Symbol} {records : List Json} (h : dump symbols = .ok records) :
    records = symbols.map written := by
  induction symbols generalizing records with
  | nil => exact (Except.ok.inj h).symm
  | cons s symbols ih =>
    rw [dump, List.mapM_cons] at h
    obtain ⟨x, hx, h⟩ := of_bind_ok h
    obtain ⟨rest, hrest, h⟩ := of_bind_ok h
    rw [← Except.ok.inj h, eq_of_serialize hx, ih hrest, List.map_cons]

/-- Whether constants are serialized as members are, which have the same fields. -/
def TreatsConstantsAsMembers : Prop :=
  ∀ s : Symbol, s.kind = .constant →
    Serializer.refuses .symbol s.asMember.written = Serializer.refuses .symbol s.written

/-- The dump of a symbol that was read reads as a symbol with the same dump. Among any symbols the
constants become members, and the others stay. -/
theorem dump_again :
    (∀ (x : Json) (s : Symbol), x.Tidy → read x = .ok s →
      s.Clean ∧ (∀ records, dump [s] = .ok records → records = [s.written]) ∧
        ∃ t, read s.written = .ok t ∧ t.written = s.written ∧ dump [t] = dump [s]) ∧
      ∀ symbols : List Symbol, List.Forall₂ (fun s t =>
        (s.kind ≠ .constant → t = s) ∧
          (s.kind = .constant → t.kind = .member ∧
            (s.Clean → read (s.record true).asMember = .ok t) ∧
            t.written = s.written.asMember ∧
            (∀ records, dump [t] = .ok records → records = [s.written.asMember]) ∧
            (TreatsConstantsAsMembers → dump [t] = (dump [s]).map (List.map Json.asMember))))
        symbols (symbols.map asMember) := by
  refine ⟨fun x s hx hread => ?_, fun symbols => ?_⟩
  · have hclean := clean_of_read hx hread
    have hwritten := hclean.record_reread false
    refine ⟨hclean, fun records => dump_ok, s.reread false, hclean.read_record false, hwritten, ?_⟩
    rw [dump_single, dump_single]
    exact congrArg (fun x => (serialize .symbol x).map fun x => [x]) hwritten
  · refine List.forall₂_map_right_iff.mpr (List.forall₂_same.mpr fun s _ => ?_)
    refine ⟨asMember_of_ne, fun hkind => ?_⟩
    have hwritten : s.asMember.written = s.written.asMember := record_asMember hkind false
    refine ⟨?_, fun hclean => hclean.read_asMember hkind, hwritten, ?_, ?_⟩
    · obtain ⟨value, hd⟩ := exists_typed hkind
      rw [asMember, hd]
      rfl
    · intro records h
      rw [dump_ok h, List.map_singleton, hwritten]
    · intro halike
      rw [dump_single, dump_single, serialize, serialize, halike s hkind, hwritten]
      split <;> rfl

end Serializer

section Plain

open scoped Plain

theorem plain_treatsConstantsAsMembers : TreatsConstantsAsMembers := by
  intro s hkind
  obtain ⟨value, hd⟩ := exists_typed hkind
  cases s with
  | mk name longname memberof scope access description origin examples see listens fires ignore
      undocumented virtual isAsync generator version since variation attribs signature id ancestors
      detail extra =>
    subst hd
    rfl

def nestedLists : Nat → Json
  | 0 => .int 1
  | depth + 1 => .array [nestedLists depth]

theorem tidy_nestedLists (depth : Nat) : (nestedLists depth).Tidy := by
  induction depth with
  | zero => exact .int 1
  | succ depth ih => exact .array (List.forall_mem_singleton.mpr ih)

/-- A constant with lists beside its fields. -/
def nestedConstant (depth : Nat) : Symbol :=
  { Symbol.bare (.constant ⟨none, false, none, none⟩) "C" "C" none with
    extra := [("x", nestedLists depth)] }

theorem clean_nestedConstant (depth : Nat) : (nestedConstant depth).Clean :=
  have hdistinct : (commonNames ++ Kind.constant.fieldNames ++ ["x"]).Nodup := by decide
  .mk ⟨nofun, nofun⟩ nofun
    ⟨hdistinct, List.forall_mem_singleton.mpr (tidy_nestedLists depth)⟩ nofun

theorem read_nestedConstant (depth : Nat) :
    read (nestedConstant depth).written = .ok (nestedConstant depth) := by
  have hsame : (nestedConstant depth).reread false = nestedConstant depth := by
    cases depth <;> rfl
  rw [written, (clean_nestedConstant depth).read_record false, hsame]

theorem guards_nestedLists (depth : Nat) : Plain.guards (nestedLists depth) = depth + 1 := by
  induction depth with
  | zero => rfl
  | succ depth ih =>
    rw [nestedLists, Plain.guards, Plain.guardsOfItems, Plain.guardsOfItems, ih, Nat.max_zero]

theorem guards_le_guardsOfEntries {es : Json.Entries} :
    ∀ e ∈ es, Plain.guards e.2 ≤ Plain.guardsOfEntries es := by
  induction es with
  | nil => exact List.forall_mem_nil _
  | cons e es ih =>
    rw [Plain.guardsOfEntries]
    exact List.forall_mem_cons.mpr ⟨le_max_left _ _, fun e he => le_max_of_le_right (ih e he)⟩

theorem guards_lt_of_mem {fields extra : Json.Entries} {e : String × Json} (he : e ∈ extra)
    (hpresent : e.2.isNull = false) :
    Plain.guards e.2 < Plain.guards (.ofFields false fields extra) := by
  rw [Json.ofFields, Plain.guards]
  refine Nat.lt_succ_of_le (guards_le_guardsOfEntries e (List.mem_filter.mpr ⟨?_, ?_⟩))
  · exact List.mem_append_right _ he
  · simp [hpresent]

theorem guards_nestedConstant (depth : Nat) :
    depth + 2 ≤ Plain.guards (nestedConstant depth).written := by
  have hmem : ("x", nestedLists depth) ∈ (nestedConstant depth).extra :=
    List.mem_singleton_self _
  have hpresent : (nestedLists depth).isNull = false := by
    cases depth <;> rfl
  have hlt : Plain.guards (nestedLists depth) < Plain.guards (nestedConstant depth).written :=
    guards_lt_of_mem hmem hpresent
  rwa [guards_nestedLists] at hlt

theorem nestedConstant_dumped_again :
    dump [nestedConstant 3] = .ok [(nestedConstant 3).written] ∧
      (∃ t, read (nestedConstant 3).written = .ok t ∧
        dump [t] = .ok [(nestedConstant 3).written]) ∧
      read ((nestedConstant 3).record true).asMember = .ok (nestedConstant 3).asMember ∧
      dump [(nestedConstant 3).asMember] = .ok [(nestedConstant 3).written.asMember] := by
  have hdump : dump [nestedConstant 3] = .ok [(nestedConstant 3).written] := rfl
  have htidy := (clean_nestedConstant 3).tidy false
  obtain ⟨hclean, -, t, hread, -, hagain⟩ := dump_again.1 _ _ htidy (read_nestedConstant 3)
  have hall := dump_again.2 [nestedConstant 3]
  rw [List.map_singleton, List.forall₂_cons] at hall
  obtain ⟨-, hreadMember, -, -, hmember⟩ := hall.1.2 rfl
  refine ⟨hdump, ⟨t, hread, hagain.trans hdump⟩, hreadMember hclean, ?_⟩
  rw [hmember plain_treatsConstantsAsMembers, hdump]
  rfl

/-- Where values are nested too deeply a symbol is read, and nothing can be written of it. -/
theorem nestedConstant_without_dump :
    (nestedConstant 300).written.Tidy ∧
      read (nestedConstant 300).written = .ok (nestedConstant 300) ∧
      dump [nestedConstant 300] = .error .tooDeep := by
  refine ⟨(clean_nestedConstant 300).tidy false, read_nestedConstant 300, ?_⟩
  have hrefuses : Serializer.refuses .symbol (nestedConstant 300).written = true :=
    decide_eq_true ((by decide : Plain.limit .symbol < 300 + 2).trans_le (guards_nestedConstant 300))
  rw [dump_single, serialize, hrefuses]
  rfl

end Plain

end Symbol

end Refsite
