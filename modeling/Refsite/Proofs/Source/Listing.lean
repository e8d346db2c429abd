import Refsite.Proofs.Html.Escape
import Refsite.Proofs.Link.Stem
import Refsite.Proofs.Text.Search
import Refsite.Proofs.Text.Split
import Refsite.Source.Listing
namespace Refsite.Source

open Refsite.Text Refsite.Html Refsite.Link.Stem

def anchorOpening (name : String) : List Char := '<' :: ("a id=\"".toList ++ name.toList ++ ['"'])

/-- What a reader sees behind the anchor of some name, up to the end of the line. -/
def lineAt (name markup : String) : Option (List Char) :=
  (behind? (anchorOpening name) markup.toList).map fun rest =>
    decode (dropTags true (upTo '\n' rest))

theorem feed_notMem_of_mem_listedLines {code line : List Char} (h : line ∈ listedLines code) :
    '\n' ∉ line := notMem_of_mem_dropLast_splitAt h

/-- What stands behind the beginning of the anchor of a line. -/
def anchorRest (name : String) (line : List Char) : List Char :=
  " name=\"".toList ++ name.toList ++ ['"'] ++ '>' :: ("</a>".toList ++ escapeCode line)

theorem toList_lineMarkup (n : Nat) (line : List Char) :
    (lineMarkup n line).toList = anchorOpening (lineAnchor (toString n)) ++
      (anchorRest (lineAnchor (toString n)) line ++ ['\n']) := by
  have hopen : "<a id=\"".toList = '<' :: "a id=\"".toList := by decide
  have hname : "\" name=\"".toList = '"' :: " name=\"".toList := by decide
  have hclose : "\"></a>".toList = '"' :: '>' :: "</a>".toList := by decide
  have hfeed : "\n".toList = ['\n'] := by decide
  unfold lineMarkup anchorOpening anchorRest
  generalize lineAnchor (toString n) = name
  dsimp only
  simp only [String.toList_append, String.toList_ofList]
  rw [hopen, hname, hclose, hfeed]
  simp only [List.append_assoc, List.cons_append, List.nil_append]

theorem notMem_lineAnchor {c : Char} (hdigit : c.isDigit = false) (h : c ∉ "line-".toList)
    (n : Nat) : c ∉ (lineAnchor (toString n)).toList := by
  rw [lineAnchor, String.toList_append, List.mem_append, not_or]
  refine ⟨h, fun hmem => ?_⟩
  rw [isDigit_counter hmem] at hdigit
  cases hdigit

theorem lineAnchor_inj {m n : Nat}
    (h : (lineAnchor (toString m)).toList = (lineAnchor (toString n)).toList) : m = n := by
  rw [lineAnchor, lineAnchor, String.toList_append, String.toList_append] at h
  exact counter_injective (List.append_cancel_left h)

def codeMarks : List Char := ['&', '<', '>']

theorem escapeCodeChar_of_notMem {c : Char} (h : c ∉ codeMarks) : escapeCodeChar c = [c] := by
  simp only [codeMarks, List.mem_cons, List.not_mem_nil, or_false, not_or] at h
  obtain ⟨h1, h2, h3⟩ := h
  unfold escapeCodeChar
  split <;> first | contradiction | rfl

theorem notMem_escapeCode {c : Char} {text : List Char} (h : c ∉ text ∨ c = '<')
    (hmark : ∀ d ∈ codeMarks, c ∉ escapeCodeChar d) : c ∉ escapeCode text := by
  intro hmem
  obtain ⟨d, hd, hc⟩ := List.mem_flatMap.mp hmem
  by_cases hin : d ∈ codeMarks
  · exact hmark d hin hc
  · rw [escapeCodeChar_of_notMem hin, List.mem_singleton] at hc
    subst hc
    obtain hnot | rfl := h
    · exact hnot hd
    · exact hin (by decide)

theorem feed_notMem_escapeCode {line : List Char} (h : '\n' ∉ line) : '\n' ∉ escapeCode line :=
  notMem_escapeCode (.inl h) (forall_mem_of_all (by decide))

theorem open_notMem_escapeCode (line : List Char) : '<' ∉ escapeCode line :=
  notMem_escapeCode (.inr rfl) (forall_mem_of_all (by decide))

theorem decode_escapeCode (text : List Char) : decode (escapeCode text) = text := by
  have hmarks : ∀ d ∈ codeMarks, (escapeCodeChar d, d) ∈ entities :=
    forall_mem_of_all (by decide)
  have hchar : ∀ c ∈ text, Rewrites entity? (escapeCodeChar c) [c] := by
    intro c _
    by_cases h : c ∈ codeMarks
    · exact rewrites_entity _ (hmarks c h)
    · have hne : c ≠ '&' := fun he => h (he ▸ by decide)
      rw [escapeCodeChar_of_notMem h]
      exact .of_inert (List.forall_mem_singleton.mpr (inert_entityIn head_entities hne))
  have h := Rewrites.flatMap hchar
  rw [List.flatMap_singleton'] at h
  exact h.substitute_eq

theorem read_anchorRest (n : Nat) {line : List Char} (h : '\n' ∉ line) (rest : List Char) :
    decode (dropTags true (upTo '\n'
      (anchorRest (lineAnchor (toString n)) line ++ '\n' :: rest))) = line := by
  have hfeed : '\n' ∉ (lineAnchor (toString n)).toList :=
    notMem_lineAnchor (by decide) (by decide) n
  have hclose : '>' ∉ (lineAnchor (toString n)).toList :=
    notMem_lineAnchor (by decide) (by decide) n
  have hcode := feed_notMem_escapeCode h
  have hopen := open_notMem_escapeCode line
  unfold anchorRest
  generalize (lineAnchor (toString n)).toList = name at hfeed hclose
  have hrest : '\n' ∉ " name=\"".toList ++ name ++ ['"'] ++
      '>' :: ("</a>".toList ++ escapeCode line) := by
    simp [hfeed, hcode]
  have hinner : '>' ∉ " name=\"".toList ++ name ++ ['"'] := by
    simp [hclose]
  have htag : dropTags true (" name=\"".toList ++ name ++ ['"'] ++
      '>' :: ("</a>".toList ++ escapeCode line)) =
        dropTags false ("</a>".toList ++ escapeCode line) :=
    dropTags_tag hinner _
  have hslash : '>' ∉ closingTag := by decide
  have hend : dropTags false ("</a>".toList ++ escapeCode line) =
      dropTags false (escapeCode line) := dropTags_tag hslash _
  have hall := dropTags_append_of_notMem hopen []
  rw [List.append_nil] at hall
  rw [upTo_append hrest, htag, hend, hall, dropTags, List.append_nil, decode_escapeCode]

/-- What no listing holds but at its anchors. -/
def anchorStart : List Char := "<a i".toList

theorem anchorStart_isPrefix (name : String) : anchorStart <+: anchorOpening name := by
  have hstart : anchorOpening name = anchorStart ++ ("d=\"".toList ++ name.toList ++ ['"']) := rfl
  exact hstart ▸ List.prefix_append _ _

theorem skipped_of_avoids_anchor {text : List Char} (h : avoids anchorStart text = true)
    (name : String) : Skipped (anchorOpening name) text :=
  skipped_of_avoids (anchorStart_isPrefix name) h

theorem skipped_of_open_notMem {text : List Char} (h : '<' ∉ text) (name : String) :
    Skipped (anchorOpening name) text := skipped_of_notMem h

theorem skipped_lineMarkup {k n : Nat} (h : n ≠ k) (line : List Char) :
    Skipped (anchorOpening (lineAnchor (toString k))) (lineMarkup n line).toList := by
  have hquote : ∀ n, '"' ∉ (lineAnchor (toString n)).toList :=
    notMem_lineAnchor (by decide) (by decide)
  have hopen : '<' ∉ (lineAnchor (toString n)).toList := notMem_lineAnchor (by decide) (by decide) n
  have hcode := open_notMem_escapeCode line
  -- The quote behind the names keeps the anchor of line 1 from being found in that of line 12.
  have hother : ∀ rest more, (lineAnchor (toString k)).toList ++ '"' :: rest ≠
      (lineAnchor (toString n)).toList ++ '"' :: more := by
    intro rest more heq
    have hcut := cutAt_append (hquote k) rest
    rw [heq, cutAt_append (hquote n) more, Option.some_inj, Prod.mk.injEq] at hcut
    exact h (lineAnchor_inj hcut.1)
  have hstart : anchorOpening (lineAnchor (toString n)) =
      '<' :: ("a id=\"".toList ++ (lineAnchor (toString n)).toList ++ ['"']) := rfl
  rw [toList_lineMarkup, hstart, List.cons_append]
  refine skipped_cons ?_ (.append ?_ (.append ?_ ?_))
  · rintro rest ⟨more, hmore⟩
    rw [anchorOpening, List.cons_append, List.cons_append, List.cons.injEq] at hmore
    simp only [List.append_assoc, List.append_cancel_left_eq, List.singleton_append] at hmore
    exact hother _ _ hmore.2
  · exact skipped_of_open_notMem (by simpa using hopen) _
  · refine .append (skipped_of_open_notMem (by simpa using hopen) _) ?_
    have hclose : '>' :: ("</a>".toList ++ escapeCode line) =
        "></a>".toList ++ escapeCode line := rfl
    rw [hclose]
    exact .append (skipped_of_avoids_anchor (by decide) _) (skipped_of_open_notMem hcode _)
  · exact skipped_of_open_notMem (by decide) _

theorem skipped_lines {k : Nat} {before : List (List Char)} (h : before.length ≤ k) :
    Skipped (anchorOpening (lineAnchor (toString (k + 1))))
      ((before.mapIdx fun i line => lineMarkup (i + 1) line).flatMap String.toList) := by
  rw [List.flatMap_def]
  refine skipped_flatten fun text htext => ?_
  obtain ⟨markup, hmarkup, rfl⟩ := List.mem_map.mp htext
  obtain ⟨i, hi, rfl⟩ := List.mem_mapIdx.mp hmarkup
  exact skipped_lineMarkup (by omega) _

theorem skipped_numberMarkup (name : String) (width n : Nat) :
    Skipped (anchorOpening name) (numberMarkup width n).toList := by
  have hopen : '<' ∉ (lineAnchor (toString n)).toList := notMem_lineAnchor (by decide) (by decide) n
  have hpad : '<' ∉ padNumber width n := by
    rw [padNumber, List.mem_append, not_or]
    refine ⟨fun hblank => ?_, fun hdigit => ?_⟩
    · exact absurd (List.eq_of_mem_replicate hblank) (by decide)
    · exact absurd (isDigit_counter hdigit) (by decide)
  unfold numberMarkup
  generalize lineAnchor (toString n) = anchor at hopen
  simp only [String.toList_append, String.toList_ofList]
  refine .append (.append (.append (.append ?_ ?_) ?_) ?_) ?_
  · exact skipped_of_avoids_anchor (by decide) name
  · exact skipped_of_open_notMem hopen name
  · exact skipped_of_open_notMem (by decide) name
  · exact skipped_of_open_notMem hpad name
  · exact skipped_of_avoids_anchor (by decide) name

def listedMarkup (shown : List (List Char)) : List Char :=
  (shown.mapIdx fun k line => lineMarkup (k + 1) line).flatMap String.toList

/-- The numbers of a listing, one below the other. -/
def listedNumbers (shown : List (List Char)) : List Char :=
  "\n".toList.intercalate (((List.range shown.length).map fun k =>
    numberMarkup (toString shown.length).length (k + 1)).map String.toList)

theorem skipped_listedNumbers (name : String) (shown : List (List Char)) :
    Skipped (anchorOpening name) (listedNumbers shown) := by
  refine skipped_intercalate (skipped_of_open_notMem (by decide) name) fun text htext => ?_
  obtain ⟨markup, hmarkup, rfl⟩ := List.mem_map.mp htext
  obtain ⟨k, -, rfl⟩ := List.mem_map.mp hmarkup
  exact skipped_numberMarkup name _ _

theorem exists_listing (code : String) :
    ∃ front back,
      (listing code).toList = front ++ (listedMarkup (listedLines code.toList) ++ back) ∧
        ∀ name, Skipped (anchorOpening name) front ∧ Skipped (anchorOpening name) back := by
  have hlisting : (listing code).toList =
    ("<div class=\"highlight\"><table class=\"highlighttable\"><tr><td class=\"linenos\">".toList ++
      "<div class=\"linenodiv\"><pre>".toList ++ listedNumbers (listedLines code.toList) ++
      "</pre></div></td>".toList ++ "<td class=\"code\"><div><pre><span></span>".toList) ++
    (listedMarkup (listedLines code.toList) ++
      "</pre></div></td></tr></table></div>\n".toList) := by
    unfold listing
    simp only [String.toList_append, String.toList_join, String.toList_intercalate,
      List.append_assoc]
    rfl
  refine ⟨_, _, hlisting, fun name => ⟨.append (.append (.append (.append ?_ ?_) ?_) ?_) ?_, ?_⟩⟩
  · exact skipped_of_avoids_anchor (by decide) name
  · exact skipped_of_avoids_anchor (by decide) name
  · exact skipped_listedNumbers name _
  · exact skipped_of_avoids_anchor (by decide) name
  · exact skipped_of_avoids_anchor (by decide) name
  · exact skipped_of_avoids_anchor (by decide) name

/-- Under the anchor of a number stands the line that has it among those that are shown. -/
theorem lineAt_listing (code : String) (k : Nat) :
    lineAt (lineAnchor (toString (k + 1))) (listing code) = (listedLines code.toList)[k]? := by
  obtain ⟨front, back, hlisting, hskipped⟩ := exists_listing code
  obtain ⟨hfront, hback⟩ := hskipped (lineAnchor (toString (k + 1)))
  rw [lineAt, hlisting, hfront]
  cases hline : (listedLines code.toList)[k]? with
  | none =>
    have hlength := List.getElem?_eq_none_iff.mp hline
    have hnone : behind? (anchorOpening (lineAnchor (toString (k + 1)))) [] = none := rfl
    have hend := hback []
    rw [List.append_nil] at hend
    rw [listedMarkup, skipped_lines hlength, hend, hnone]
    rfl
  | some line =>
    obtain ⟨hk, hget⟩ := List.getElem?_eq_some_iff.mp hline
    have hfeed : '\n' ∉ line := feed_notMem_of_mem_listedLines (List.mem_of_getElem? hline)
    have hsplit : listedLines code.toList = (listedLines code.toList).take k ++
        line :: (listedLines code.toList).drop (k + 1) := by
      rw [← hget, List.cons_getElem_drop_succ, List.take_append_drop]
    have hlength : ((listedLines code.toList).take k).length = k :=
      List.length_take_of_le hk.le
    rw [hsplit, listedMarkup, List.mapIdx_append, List.flatMap_append, List.append_assoc,
      skipped_lines hlength.le, List.mapIdx_cons, List.flatMap_cons, hlength, Nat.zero_add,
      toList_lineMarkup, List.append_assoc, List.append_assoc, behind_append, Option.map_some,
      List.append_assoc, List.singleton_append, read_anchorRest _ hfeed]

end Refsite.Source
