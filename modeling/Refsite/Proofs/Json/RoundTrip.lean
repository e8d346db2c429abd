import Mathlib.Tactic.SplitIfs
import Refsite.Doclet.Dump
import Refsite.Json.Parser
import Refsite.Json.Printer
import Refsite.Proofs.Json.Floats
import Refsite.Proofs.Json.Sorted
import Refsite.Proofs.Text.Utf8
namespace Refsite.Json.Parser

open Refsite.Text (hexDigits lowerHexDigits hexNumber?)

theorem unicodeEscape_control {n : Nat} (h : n < 0x20) (rest : List Char) :
    unicodeEscape (hexDigits lowerHexDigits 4 n ++ rest) = some (Char.ofNat n, rest) := by
  have hnumber : hexNumber? 0 (hexDigits lowerHexDigits 4 n) = some n := by decide +revert
  obtain ⟨a, b, c, d, hdigits⟩ : ∃ a b c d, hexDigits lowerHexDigits 4 n = [a, b, c, d] :=
    ⟨_, _, _, _, rfl⟩
  rw [hdigits] at hnumber ⊢
  simp only [unicodeEscape, unit, List.cons_append, List.nil_append, hnumber]
  simp
  omega

theorem stringRest_escapeChar (c : Char) (fuel : Nat) (done rest : List Char) :
    stringRest (fuel + 1) done (escapeChar c ++ rest) = stringRest fuel (c :: done) rest := by
  unfold escapeChar
  split_ifs with h1 h2 h3 h4 h5 h6 h7 h8
  all_goals simp only [beq_iff_eq] at *
  · subst h1; rfl
  · subst h2; rfl
  · subst h3; rfl
  · subst h4; rfl
  · subst h5; rfl
  · subst h6; rfl
  · subst h7; rfl
  · rw [List.append_assoc]
    change unicodeEscape (hexDigits lowerHexDigits 4 c.toNat ++ rest) >>= _ = _
    rw [unicodeEscape_control h8]
    simp
  · rw [List.singleton_append, stringRest]
    · rw [if_neg h8]
    · exact h1
    · rintro t rfl; simp at h2
    · rintro d t rfl; simp at h2

theorem stringRest_flatMap (s : List Char) (fuel : Nat) (done rest : List Char)
    (hfuel : s.length < fuel) :
    stringRest fuel done (s.flatMap escapeChar ++ '"' :: rest) =
      some (String.ofList (done.reverse ++ s), rest) := by
  induction s generalizing fuel done with
  | nil =>
    obtain ⟨fuel, rfl⟩ : ∃ n, fuel = n + 1 := ⟨fuel - 1, by grind⟩
    simp [stringRest]
  | cons c s ih =>
    obtain ⟨fuel, rfl⟩ : ∃ n, fuel = n + 1 := ⟨fuel - 1, by grind⟩
    rw [List.flatMap_cons, List.append_assoc, stringRest_escapeChar, ih _ _ (by grind)]
    simp

theorem escapeChar_ne_nil (c : Char) : escapeChar c ≠ [] := by
  unfold escapeChar
  split_ifs <;> simp

theorem length_le_length_flatMap (s : List Char) : s.length ≤ (s.flatMap escapeChar).length := by
  induction s with
  | nil => simp
  | cons c s ih =>
    have := List.length_pos_iff.mpr (escapeChar_ne_nil c)
    simp only [List.flatMap_cons, List.length_cons, List.length_append]
    omega

/-- A written string after its opening mark. -/
def closed (s : String) : List Char := s.toList.flatMap escapeChar ++ ['"']

theorem writeString_eq (s : String) : writeString s = '"' :: closed s := rfl

theorem stringRest_closed (s : String) (rest : List Char) :
    stringRest ((closed s ++ rest).length + 1) [] (closed s ++ rest) = some (s, rest) := by
  have hlength := length_le_length_flatMap s.toList
  have hread := stringRest_flatMap s.toList ((closed s ++ rest).length + 1) [] rest
    (by simp only [closed, List.length_append]; omega)
  simpa [closed] using hread

end Refsite.Json.Parser

namespace Refsite.Json

open Refsite.Text (joinWith)

namespace Parser

/-- White space in front of a text. -/
def AreSpaces (front : List Char) : Prop := ∀ c ∈ front, isSpace c

theorem areSpaces_indentation (depth : Nat) : AreSpaces (indentation depth) := by
  intro c hc
  rw [List.eq_of_mem_replicate hc]
  rfl

theorem areSpaces_line {front : List Char} (h : AreSpaces front) : AreSpaces ('\n' :: front) := by
  intro c hc
  obtain rfl | hc := List.mem_cons.mp hc
  · rfl
  · exact h c hc

theorem areSpaces_lineEnd : AreSpaces ['\n'] := areSpaces_line nofun

theorem skipSpace_append {front : List Char} (h : AreSpaces front) (text : List Char) :
    skipSpace (front ++ text) = skipSpace text :=
  List.dropWhile_append_of_pos h

theorem skipSpace_skipSpace (text : List Char) : skipSpace (skipSpace text) = skipSpace text := by
  induction text with
  | nil => rfl
  | cons c text ih =>
    by_cases h : isSpace c
    · simpa [skipSpace, h] using ih
    · simp [skipSpace, h]

theorem value_skipSpace (wide : WideIntegers) (fuel depth : Nat) (text : List Char) :
    value wide fuel depth (skipSpace text) = value wide fuel depth text := by
  cases fuel with
  | zero => rfl
  | succ fuel => rw [value, value, skipSpace_skipSpace]

theorem items_skipSpace (wide : WideIntegers) (fuel depth : Nat) (text : List Char) :
    items wide fuel depth (skipSpace text) = items wide fuel depth text := by
  cases fuel with
  | zero => rfl
  | succ fuel => rw [items, items, value_skipSpace]

theorem entries_skipSpace (wide : WideIntegers) (fuel depth : Nat) (done : Entries)
    (text : List Char) :
    entries wide fuel depth done (skipSpace text) = entries wide fuel depth done text := by
  cases fuel with
  | zero => rfl
  | succ fuel => rw [entries, entries, skipSpace_skipSpace]

/-- The text is read as the value, whatever comes behind its end. -/
def Reads (x : Json) (text : List Char) : Prop :=
  ∀ (fuel depth : Nat) (rest : List Char), text.length < fuel → x.nesting ≤ depth → Stops rest →
    value .asFloats fuel depth (text ++ rest) = some (x.sorted, rest)

theorem Reads.spaces {x : Json} {text front rest : List Char} {fuel depth : Nat}
    (h : Reads x text) (hfront : AreSpaces front) (hfuel : text.length < fuel)
    (hdepth : x.nesting ≤ depth) (hrest : Stops rest) :
    value .asFloats fuel depth (front ++ (text ++ rest)) = some (x.sorted, rest) := by
  rw [← value_skipSpace, skipSpace_append hfront, value_skipSpace]
  exact h fuel depth rest hfuel hdepth hrest

/-- The lines of a collection up to its closing mark. -/
def linesOf (front back : List Char) (closing : Char) (texts : List (List Char)) : List Char :=
  joinWith [',', '\n'] (texts.map (front ++ ·)) ++ '\n' :: (back ++ [closing])

theorem linesOf_singleton (front back : List Char) (closing : Char) (text : List Char) :
    linesOf front back closing [text] = front ++ (text ++ '\n' :: (back ++ [closing])) := by
  simp [linesOf, joinWith]

theorem linesOf_cons_cons (front back : List Char) (closing : Char) (text next : List Char)
    (texts : List (List Char)) :
    linesOf front back closing (text :: next :: texts) =
      front ++ (text ++ ',' :: '\n' :: linesOf front back closing (next :: texts)) := by
  simp [linesOf, joinWith]

theorem skipSpace_back {back : List Char} (hback : AreSpaces back) {closing : Char}
    (hclosing : isSpace closing = false) (rest : List Char) :
    skipSpace ('\n' :: (back ++ closing :: rest)) = closing :: rest := by
  rw [← List.cons_append, skipSpace_append (areSpaces_line hback)]
  simp [skipSpace, hclosing]

theorem length_linesOf_cons_cons (front back : List Char) (closing : Char) (text next : List Char)
    (texts : List (List Char)) :
    text.length + (linesOf front back closing (next :: texts)).length <
      (linesOf front back closing (text :: next :: texts)).length := by
  rw [linesOf_cons_cons]
  simp only [List.length_append, List.length_cons]
  omega

theorem length_lt_linesOf_singleton (front back : List Char) (closing : Char) (text : List Char) :
    text.length < (linesOf front back closing [text]).length := by
  rw [linesOf_singleton]
  simp only [List.length_append, List.length_cons]
  omega

section Lines

variable {front back : List Char} {fuel depth : Nat} {x : Json} {text : List Char}

theorem items_last (hfront : AreSpaces front) (hback : AreSpaces back) (hreads : Reads x text)
    (hfuel : text.length < fuel) (hdepth : x.nesting ≤ depth) (rest : List Char) :
    items .asFloats (fuel + 1) depth (linesOf front back ']' [text] ++ rest) =
      some ([x.sorted], rest) := by
  have hclosing : isSpace ']' = false := rfl
  have hvalue := hreads.spaces hfront hfuel hdepth (stops_line (back ++ ']' :: rest))
  simp only [linesOf_singleton, List.append_assoc, List.cons_append, List.nil_append, items,
    hvalue, Option.bind_eq_bind, Option.bind_some, skipSpace_back hback hclosing]
  rfl

theorem items_cons (hfront : AreSpaces front) (hreads : Reads x text)
    (hfuel : text.length < fuel) (hdepth : x.nesting ≤ depth) {next : List Char}
    {texts : List (List Char)} {xs : List Json} {rest : List Char}
    (hrest : items .asFloats fuel depth (linesOf front back ']' (next :: texts) ++ rest) =
      some (xs, rest)) :
    items .asFloats (fuel + 1) depth (linesOf front back ']' (text :: next :: texts) ++ rest) =
      some (x.sorted :: xs, rest) := by
  have hvalue := hreads.spaces hfront hfuel hdepth
    (stops_comma ('\n' :: (linesOf front back ']' (next :: texts) ++ rest)))
  rw [← items_skipSpace, ← skipSpace_append areSpaces_lineEnd, items_skipSpace,
    List.singleton_append] at hrest
  simp only [linesOf_cons_cons, List.append_assoc, List.cons_append, items, hvalue,
    Option.bind_eq_bind, Option.bind_some]
  change (items .asFloats fuel depth
    ('\n' :: (linesOf front back ']' (next :: texts) ++ rest))).bind _ = _
  rw [hrest]
  rfl

end Lines

theorem items_linesOf {front back : List Char} (hfront : AreSpaces front) (hback : AreSpaces back)
    {write : Json → List Char} {xs : List Json} (hne : xs ≠ [])
    (hreads : ∀ x ∈ xs, Reads x (write x)) {fuel depth : Nat} (rest : List Char)
    (hfuel : (linesOf front back ']' (xs.map write)).length < fuel)
    (hdepth : ∀ x ∈ xs, x.nesting ≤ depth) :
    items .asFloats fuel depth (linesOf front back ']' (xs.map write) ++ rest) =
      some (xs.map sorted, rest) := by
  induction xs generalizing fuel with
  | nil => exact absurd rfl hne
  | cons x xs ih =>
    obtain ⟨fuel, rfl⟩ : ∃ n, fuel = n + 1 := ⟨fuel - 1, by omega⟩
    obtain ⟨hx, hxs⟩ := List.forall_mem_cons.mp hreads
    obtain ⟨hdx, hdxs⟩ := List.forall_mem_cons.mp hdepth
    cases xs with
    | nil =>
      have hlength := length_lt_linesOf_singleton front back ']' (write x)
      exact items_last hfront hback hx (by simp only [List.map_cons, List.map_nil] at hfuel; omega)
        hdx rest
    | cons y ys =>
      have hlength := length_linesOf_cons_cons front back ']' (write x) (write y) (ys.map write)
      simp only [List.map_cons] at hfuel ih ⊢
      exact items_cons hfront hx (by omega) hdx (ih (List.cons_ne_nil y ys) hxs (by omega) hdxs)

/-- One entry is read, and what follows it decides how to go on. -/
theorem entries_entry {front text rest : List Char} (hfront : AreSpaces front) {x : Json}
    (hreads : Reads x text) {name : String} {done : Entries} (hname : name ∉ done.map Prod.fst)
    {fuel depth : Nat} (hfuel : text.length < fuel) (hdepth : x.nesting ≤ depth)
    (hrest : Stops rest) :
    entries .asFloats (fuel + 1) depth done
        (front ++ (writeString name ++ ':' :: ' ' :: (text ++ rest))) =
      match skipSpace rest with
      | ',' :: rest => entries .asFloats fuel depth (done ++ [(name, x.sorted)]) rest
      | '}' :: rest => some (done ++ [(name, x.sorted)], rest)
      | _ => none := by
  have hstring := stringRest_closed name (':' :: ' ' :: (text ++ rest))
  have hcolon : skipSpace (':' :: ' ' :: (text ++ rest)) = ':' :: ' ' :: (text ++ rest) := rfl
  have hspace : AreSpaces [' '] := by simp [AreSpaces, isSpace]
  have hvalue : value .asFloats fuel depth (' ' :: (text ++ rest)) = some (x.sorted, rest) :=
    hreads.spaces hspace hfuel hdepth hrest
  have hmark (more : List Char) : skipSpace ('"' :: more) = '"' :: more := rfl
  rw [writeString_eq, List.cons_append, entries, skipSpace_append hfront, hmark]
  simp only [hstring, hcolon, hvalue, Option.bind_eq_bind, Option.bind_some,
    Entries.put_of_not_mem hname]
  rfl

def entryText (write : Json → List Char) (e : String × Json) : List Char :=
  writeString e.1 ++ ':' :: ' ' :: write e.2

theorem length_lt_entryText (write : Json → List Char) (e : String × Json) :
    (write e.2).length < (entryText write e).length := by
  simp only [entryText, List.length_append, List.length_cons]
  omega

section Lines

variable {front back : List Char} {write : Json → List Char} {e : String × Json} {done : Entries}
  {fuel depth : Nat}

theorem entries_last (hfront : AreSpaces front) (hback : AreSpaces back)
    (hreads : Reads e.2 (write e.2)) (hname : e.1 ∉ done.map Prod.fst)
    (hfuel : (write e.2).length < fuel) (hdepth : e.2.nesting ≤ depth) (rest : List Char) :
    entries .asFloats (fuel + 1) depth done
        (linesOf front back '}' [entryText write e] ++ rest) =
      some (done ++ [(e.1, e.2.sorted)], rest) := by
  have hclosing : isSpace '}' = false := rfl
  have hentry := entries_entry hfront hreads hname hfuel hdepth (stops_line (back ++ '}' :: rest))
  simp only [linesOf_singleton, entryText, List.append_assoc, List.cons_append,
    List.nil_append] at hentry ⊢
  rw [hentry, skipSpace_back hback hclosing]
  rfl

/-- An entry before others is read, and then the others are. -/
theorem entries_cons (hfront : AreSpaces front) (hreads : Reads e.2 (write e.2))
    (hname : e.1 ∉ done.map Prod.fst) (hfuel : (write e.2).length < fuel)
    (hdepth : e.2.nesting ≤ depth) {next : List Char} {texts : List (List Char)} {es : Entries}
    {rest : List Char}
    (hrest : entries .asFloats fuel depth (done ++ [(e.1, e.2.sorted)])
      (linesOf front back '}' (next :: texts) ++ rest) = some (es, rest)) :
    entries .asFloats (fuel + 1) depth done
        (linesOf front back '}' (entryText write e :: next :: texts) ++ rest) =
      some (es, rest) := by
  have hcomma (more : List Char) : skipSpace (',' :: more) = ',' :: more := rfl
  have hentry := entries_entry hfront hreads hname hfuel hdepth
    (stops_comma ('\n' :: (linesOf front back '}' (next :: texts) ++ rest)))
  rw [← entries_skipSpace, ← skipSpace_append areSpaces_lineEnd, entries_skipSpace,
    List.singleton_append] at hrest
  simp only [linesOf_cons_cons, entryText, List.append_assoc, List.cons_append] at hentry ⊢
  rw [hentry, hcomma]
  exact hrest

end Lines

theorem entries_linesOf {front back : List Char} (hfront : AreSpaces front)
    (hback : AreSpaces back) {write : Json → List Char} {es : Entries} (hne : es ≠ [])
    (hreads : ∀ e ∈ es, Reads e.2 (write e.2)) {fuel depth : Nat} {done : Entries}
    (rest : List Char) (hnames : ((done ++ es).map Prod.fst).Nodup)
    (hfuel : (linesOf front back '}' (es.map (entryText write))).length < fuel)
    (hdepth : ∀ e ∈ es, e.2.nesting ≤ depth) :
    entries .asFloats fuel depth done
        (linesOf front back '}' (es.map (entryText write)) ++ rest) =
      some (done ++ es.map fun e => (e.1, e.2.sorted), rest) := by
  induction es generalizing fuel done with
  | nil => exact absurd rfl hne
  | cons e es ih =>
    obtain ⟨fuel, rfl⟩ : ∃ n, fuel = n + 1 := ⟨fuel - 1, by omega⟩
    obtain ⟨hx, hxs⟩ := List.forall_mem_cons.mp hreads
    obtain ⟨hdx, hdxs⟩ := List.forall_mem_cons.mp hdepth
    have htext := length_lt_entryText write e
    have hname : e.1 ∉ done.map Prod.fst := by
      intro hmem
      simp only [List.map_append, List.map_cons] at hnames
      exact (List.nodup_append.mp hnames).2.2 _ hmem _ List.mem_cons_self rfl
    cases es with
    | nil =>
      have hlength := length_lt_linesOf_singleton front back '}' (entryText write e)
      exact entries_last hfront hback hx hname
        (by simp only [List.map_cons, List.map_nil] at hfuel; omega) hdx rest
    | cons next es =>
      have hlength := length_linesOf_cons_cons front back '}' (entryText write e)
        (entryText write next) (es.map (entryText write))
      have hnames' : ((done ++ [(e.1, e.2.sorted)] ++ next :: es).map Prod.fst).Nodup := by
        simpa using hnames
      simp only [List.map_cons] at hfuel
      have hshorter :
          (linesOf front back '}' ((next :: es).map (entryText write))).length < fuel := by
        rw [List.map_cons]
        omega
      have hrest := ih (List.cons_ne_nil next es) hxs hnames' hshorter hdxs
      rw [List.append_assoc] at hrest
      exact entries_cons hfront hx hname (by omega) hdx hrest

/-- A collection is read by its marks and what stands between them. -/
theorem writeLines_eq (opening closing : Char) (depth : Nat) {texts : List (List Char)}
    (hne : texts ≠ []) :
    writeLines opening closing depth texts =
      opening :: '\n' :: linesOf (indentation (depth + 1)) (indentation depth) closing texts := by
  cases texts with
  | nil => exact absurd rfl hne
  | cons text texts => simp [writeLines, linesOf]

theorem value_closing {closing : Char} (hclosing : closing = ']' ∨ closing = '}')
    (wide : WideIntegers) (fuel depth : Nat) (text : List Char) :
    value wide fuel depth (closing :: text) = none := by
  cases fuel with
  | zero => rfl
  | succ fuel => obtain rfl | rfl := hclosing <;> rfl

/-- Items that are read after an opening bracket do not start with the closing one. -/
theorem value_array {wide : WideIntegers} {fuel depth : Nat} {text rest : List Char}
    {xs : List Json} (h : items wide fuel depth text = some (xs, rest)) :
    value wide (fuel + 1) (depth + 1) ('[' :: text) = some (.array xs, rest) := by
  have hmark : skipSpace ('[' :: text) = '[' :: text := rfl
  have hnot (more : List Char) : skipSpace text ≠ ']' :: more := by
    intro heq
    cases fuel with
    | zero => simp [items] at h
    | succ fuel => simp [items, ← value_skipSpace wide fuel depth text, heq, value_closing] at h
  rw [value, hmark]
  rw [← items_skipSpace] at h
  simp [h]

theorem value_object {wide : WideIntegers} {fuel depth : Nat} {text rest : List Char}
    {es : Entries} (h : entries wide fuel depth [] text = some (es, rest)) :
    value wide (fuel + 1) (depth + 1) ('{' :: text) = some (.object es, rest) := by
  have hmark : skipSpace ('{' :: text) = '{' :: text := rfl
  have hnot (more : List Char) : skipSpace text ≠ '}' :: more := by
    intro heq
    cases fuel with
    | zero => simp [entries] at h
    | succ fuel => simp [entries, heq] at h
  rw [value, hmark]
  rw [← entries_skipSpace] at h
  simp [h]

theorem reads_array {xs : List Json} {depth : Nat}
    (hreads : ∀ x ∈ xs, Reads x (writeAt (depth + 1) x)) :
    Reads (.array xs) (writeAt depth (.array xs)) := by
  intro fuel limit rest hfuel hlimit hrest
  simp only [nesting] at hlimit
  obtain ⟨limit, rfl⟩ : ∃ n, limit = n + 1 := ⟨limit - 1, by omega⟩
  obtain ⟨fuel, rfl⟩ : ∃ n, fuel = n + 1 := ⟨fuel - 1, by omega⟩
  rw [writeAt, writeItems_eq] at hfuel ⊢
  by_cases hne : xs = []
  · subst hne
    rfl
  · rw [writeLines_eq _ _ _ (by simpa using hne)] at hfuel ⊢
    have hlength : (linesOf (indentation (depth + 1)) (indentation depth) ']'
        (xs.map (writeAt (depth + 1)))).length < fuel := by
      simp only [List.length_cons] at hfuel
      omega
    have hlines := items_linesOf (areSpaces_indentation (depth + 1)) (areSpaces_indentation depth)
      hne hreads rest hlength ((nestingOfItems_le_iff xs limit).mp (by omega))
    rw [← items_skipSpace, ← skipSpace_append areSpaces_lineEnd,
      items_skipSpace] at hlines
    rw [sorted, sortedItems_eq]
    exact value_array hlines

theorem entryTexts_eq (es : Entries) (depth : Nat) :
    (sortByName (writeEntries depth es)).map
      (fun (name, text) => writeString name ++ ':' :: ' ' :: text) =
      (sortByName es).map (entryText (writeAt depth)) := by
  rw [writeEntries_eq, sortByName_map, List.map_map]
  rfl

theorem reads_object {es : Entries} (distinct : (es.map Prod.fst).Nodup) {depth : Nat}
    (hreads : ∀ e ∈ es, Reads e.2 (writeAt (depth + 1) e.2)) :
    Reads (.object es) (writeAt depth (.object es)) := by
  intro fuel limit rest hfuel hlimit hrest
  simp only [nesting] at hlimit
  obtain ⟨limit, rfl⟩ : ∃ n, limit = n + 1 := ⟨limit - 1, by omega⟩
  obtain ⟨fuel, rfl⟩ : ∃ n, fuel = n + 1 := ⟨fuel - 1, by omega⟩
  have hperm : (sortByName es).Perm es := List.mergeSort_perm ..
  rw [writeAt, entryTexts_eq] at hfuel ⊢
  by_cases hne : es = []
  · subst hne
    simp [sorted, sortedEntries, sortByName, writeLines]
    rfl
  · have hne' : sortByName es ≠ [] := fun h => hne (by simpa [h] using hperm.symm)
    rw [writeLines_eq _ _ _ (by simpa using hne')] at hfuel ⊢
    have hlength : (linesOf (indentation (depth + 1)) (indentation depth) '}'
        ((sortByName es).map (entryText (writeAt (depth + 1))))).length < fuel := by
      simp only [List.length_cons] at hfuel
      omega
    have hnames : (([] ++ sortByName es).map Prod.fst).Nodup :=
      (hperm.map Prod.fst).nodup_iff.mpr distinct
    have hlines := entries_linesOf (areSpaces_indentation (depth + 1))
      (areSpaces_indentation depth) hne' (fun e he => hreads e (hperm.mem_iff.mp he)) rest hnames
      hlength fun e he => (nestingOfEntries_le_iff es limit).mp (by omega) e (hperm.mem_iff.mp he)
    rw [← entries_skipSpace, ← skipSpace_append areSpaces_lineEnd,
      entries_skipSpace] at hlines
    rw [sorted, sortedEntries_eq, sortByName_map]
    exact value_object hlines

theorem value_writeInt {wide : WideIntegers} {n : Int} (h : isNarrowInt n) {fuel depth : Nat}
    {rest : List Char} (hrest : Stops rest) :
    value wide (fuel + 1) depth (writeInt n ++ rest) = some (.int n, rest) := by
  rw [writeInt_eq]
  by_cases hn : n < 0
  · have hread := unsigned_toDigits wide (show isNarrowInt (if true then -n.natAbs else n.natAbs) by
      rwa [if_pos rfl, show -(n.natAbs : Int) = n by omega]) hrest
    rw [if_pos hn, List.append_assoc, List.singleton_append, value_minus, hread, if_pos rfl,
      show -(n.natAbs : Int) = n by omega]
  · have hread := unsigned_toDigits wide (show isNarrowInt (if false then -n.natAbs else n.natAbs) by
      rwa [if_neg (by decide), show (n.natAbs : Int) = n by omega]) hrest
    rw [if_neg hn, List.nil_append, value_of_unsigned hread, if_neg (by decide),
      show (n.natAbs : Int) = n by omega]

/-- A value without repeated names reads back as it was written, with its entries sorted. -/
theorem reads_writeAt {x : Json} (htidy : x.Tidy) (hnarrow : x.isNarrow) (depth : Nat) :
    Reads x (writeAt depth x) := by
  induction htidy generalizing depth with
  | null =>
    intro fuel limit rest hfuel hlimit hrest
    obtain ⟨fuel, rfl⟩ : ∃ n, fuel = n + 1 := ⟨fuel - 1, by omega⟩
    rfl
  | bool b =>
    intro fuel limit rest hfuel hlimit hrest
    obtain ⟨fuel, rfl⟩ : ∃ n, fuel = n + 1 := ⟨fuel - 1, by omega⟩
    cases b <;> rfl
  | int n =>
    intro fuel limit rest hfuel hlimit hrest
    obtain ⟨fuel, rfl⟩ : ∃ n, fuel = n + 1 := ⟨fuel - 1, by omega⟩
    exact value_writeInt hnarrow hrest
  | float normal =>
    intro fuel limit rest hfuel hlimit hrest
    obtain ⟨fuel, rfl⟩ : ∃ n, fuel = n + 1 := ⟨fuel - 1, by omega⟩
    exact value_write normal hrest
  | string s =>
    intro fuel limit rest hfuel hlimit hrest
    obtain ⟨fuel, rfl⟩ : ∃ n, fuel = n + 1 := ⟨fuel - 1, by omega⟩
    have hmark (more : List Char) : skipSpace ('"' :: more) = '"' :: more := rfl
    rw [writeAt, writeString_eq, List.cons_append, value, hmark]
    simp only [stringRest_closed]
    rfl
  | array _ ih =>
    rw [isNarrow, areNarrow_iff] at hnarrow
    exact reads_array fun x hx => ih x hx (hnarrow x hx) _
  | object distinct _ ih =>
    rw [isNarrow, entriesAreNarrow_iff] at hnarrow
    exact reads_object distinct fun e he => ih e he (hnarrow e he) _

end Parser

theorem parse?_pretty {x : Json} (htidy : x.Tidy) (hprint : x.isPrintable) :
    parse? .asFloats x.pretty = some x.sorted := by
  simp only [isPrintable, Bool.and_eq_true, decide_eq_true_eq] at hprint
  have hdepth : x.nesting ≤ Parser.depthLimit := Nat.le_trans hprint.2 (by decide)
  have hread := Parser.reads_writeAt htidy hprint.1 0 (x.pretty.length + 1) Parser.depthLimit []
    (Nat.lt_succ_self _) hdepth Parser.stops_nil
  rw [List.append_nil] at hread
  simp only [parse?, pretty] at hread ⊢
  rw [hread]
  rfl

theorem ofBytes?_print {x : Json} (htidy : x.Tidy) {text : String} (hprint : x.print = .ok text) :
    ofBytes? (Text.Utf8.encode text.toList) = some x.sorted := by
  rw [print] at hprint
  split at hprint
  · next h =>
    cases hprint
    rw [ofBytes?, Text.Utf8.decode?_encode, Option.bind_some, String.toList_ofList,
      parse?_pretty htidy h]
  · cases hprint

end Refsite.Json
