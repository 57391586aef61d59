import BlockLang.Proofs.Expr.Accepted
import BlockLang.Proofs.Expr.Ends

/-!
# Cuts between lexemes

A text can be cut where a lexeme begins. Main statements: every lexeme begins at a cut, and what is
in front of a cut is scanned by itself, even if the text cannot be scanned up to its end.
-/

namespace BlockLang.Lexeme

variable {start skip : Nat} {c : Char} {front after : List Char}

/-- Whether `front`, read with `after` behind it, can be read up to its end and no lexeme goes
across that. The first `skip` characters belong to a lexeme that has been read already. -/
def cutsBefore (after : List Char) : Nat → List Char → Bool
  | skip, [] => skip = 0
  | skip + 1, _ :: front => cutsBefore after skip front
  | 0, c :: front =>
    if isBlank c then cutsBefore after 0 front
    else match first c (front ++ after) with
      | (.ok _, more) => cutsBefore after more front
      | (.error _, _) => false

/-- A lexeme that has been read does not go across a cut. -/
lemma skip_le_of_cutsBefore (h : cutsBefore after skip front) : skip ≤ front.length := by
  induction front generalizing skip with
  | nil =>
    have hzero : skip = 0 := by simpa [cutsBefore] using h
    exact hzero.le
  | cons c front ih =>
    cases skip with
    | zero => exact Nat.zero_le _
    | succ skip => exact Nat.succ_le_succ (ih h)

/-- The characters of a lexeme can be left out. -/
lemma cutsBefore_drop (h : cutsBefore after skip front) : cutsBefore after 0 (front.drop skip) := by
  induction front generalizing skip with
  | nil =>
    rw [List.drop_nil]
    rfl
  | cons c front ih =>
    cases skip with
    | zero => exact h
    | succ skip => exact ih h

/-- The lexeme at the front ends before the cut, and does not depend on what is behind that. -/
lemma first_of_cutsBefore (hc : ¬ isBlank c) (h : cutsBefore after 0 (c :: front)) :
    ∃ token more, first c front = (.ok token, more) ∧ more ≤ front.length ∧
      first c (front ++ after) = (.ok token, more) ∧ cutsBefore after 0 (front.drop more) := by
  rw [cutsBefore, if_neg hc] at h
  split at h
  case h_1 token more hfirst =>
    have hle := skip_le_of_cutsBefore h
    have hshort : (first c (front ++ after)).2 ≤ front.length := by rwa [hfirst]
    exact ⟨token, more, (first_append_of_le hshort).symm.trans hfirst, hle, hfirst,
      cutsBefore_drop h⟩
  case h_2 => cases h

/-- The characters of a lexeme that has been read are passed over. -/
lemma cutsBefore_append (part : List Char) :
    cutsBefore after part.length (part ++ front) = cutsBefore after 0 front := by
  induction part with
  | nil => rfl
  | cons c part ih => exact ih

/-- Every lexeme of a text begins at a cut. -/
theorem exists_cut_of_scan {text : List Char} {ts us : List Lexeme} {t : Lexeme}
    (h : scan start text = .ok (ts ++ t :: us)) :
    ∃ front rest, text = front ++ rest ∧ cutsBefore rest 0 front ∧
      t.span.start = start + width front ∧ scan t.span.start rest = .ok (t :: us) := by
  fun_induction scan start text generalizing ts with
  | case1 => simp at h
  | case2 start c text hc ih =>
    obtain ⟨front, rest, rfl, hcuts, hplace, hrest⟩ := ih h
    refine ⟨c :: front, rest, rfl, ?_, ?_, hrest⟩
    · rwa [cutsBefore, if_pos hc]
    · rw [hplace, width_cons, Nat.add_assoc]
  | case3 => cases h
  | case4 start c text hc more span token hfirst =>
    rename_i ih
    obtain ⟨others, hothers, hlexemes⟩ := exists_of_map_eq_ok h
    cases ts with
    | nil =>
      obtain ⟨rfl, rfl⟩ := List.cons.inj hlexemes
      refine ⟨[], c :: text, rfl, rfl, rfl, ?_⟩
      rw [scan_ok hc hfirst]
      exact h
    | cons u ts =>
      obtain ⟨-, rfl⟩ := List.cons.inj hlexemes
      obtain ⟨front, rest, hdrop, hcuts, hplace, hrest⟩ := ih hothers
      -- The first lexeme is put in front of the cut that is found in what comes after it.
      have hmore : (text.take more).length = more :=
        List.length_take_of_le (by simpa [hfirst] using first_le c text)
      have htext : text = text.take more ++ front ++ rest := by
        rw [List.append_assoc, ← hdrop, List.take_append_drop]
      refine ⟨c :: (text.take more ++ front), rest, ?_, ?_, ?_, hrest⟩
      · rw [List.cons_append, ← htext]
      · rw [cutsBefore, if_neg hc, ← htext, hfirst]
        show cutsBefore rest more (text.take more ++ front)
        rw [← hcuts, ← cutsBefore_append (text.take more), hmore]
      · show t.span.start = start + width (c :: text.take more ++ front)
        rw [hplace, width_append, ← Nat.add_assoc]

/-- A lexeme that begins where the text does has no blanks before it. -/
lemma Layout.exists_of_start_eq {text : List Char} {t : Lexeme} {us : List Lexeme}
    (h : Layout t.span.start text (t :: us)) :
    ∃ word after, text = word ++ after ∧ Spells t.token word ∧
      t.span = ⟨t.span.start, t.span.start + width word⟩ := by
  generalize hplace : t.span.start = place at h
  cases h with
  | @cons _ gap word after token _ blank spells others =>
    have hgap : width gap = 0 := by
      have hsum : place + width gap = place := hplace
      omega
    obtain rfl : gap = [] := by
      by_contra hne
      exact (width_pos hne).ne' hgap
    exact ⟨word, after, rfl, spells, rfl⟩

/-- Where a token of a text is written, the text is cut. -/
theorem exists_cut_of_mem {text : String} {ts : List Lexeme} {t : Lexeme}
    (h : ofText text = .ok ts) (ht : t ∈ ts) :
    ∃ front word after : String, text = front ++ word ++ after ∧ Spells t.token word.toList ∧
      t.span = ⟨front.utf8ByteSize, (front ++ word).utf8ByteSize⟩ ∧
      cutsBefore (word ++ after).toList 0 front.toList := by
  obtain ⟨us, vs, rfl⟩ := List.append_of_mem ht
  obtain ⟨front, rest, htext, hcuts, hstart, hrest⟩ := exists_cut_of_scan h
  obtain ⟨word, after, rfl, hspells, hspan⟩ := (layout_of_scan hrest).exists_of_start_eq
  refine ⟨.ofList front, .ofList word, .ofList after, ?_, ?_, ?_, ?_⟩
  · rw [← String.ofList_append, ← String.ofList_append, List.append_assoc, ← htext,
      String.ofList_toList]
  · rwa [String.toList_ofList]
  · rw [← String.ofList_append, utf8ByteSize_ofList, utf8ByteSize_ofList, width_append, hspan,
      hstart, Nat.zero_add]
  · rwa [← String.ofList_append, String.toList_ofList, String.toList_ofList]

/-- A text is scanned up to a cut, and from there on. -/
theorem exists_scan_append_of_cutsBefore (h : cutsBefore after 0 front) (start : Nat) :
    ∃ ts, scan start front = .ok ts ∧
      scan start (front ++ after) = (scan (start + width front) after).map (ts ++ ·) := by
  -- Along the lexemes of `front`: each is also read if `after` is there.
  fun_induction scan start front with
  | case1 start =>
    refine ⟨[], rfl, ?_⟩
    rw [List.nil_append, width_nil, Nat.add_zero]
    cases scan start after <;> rfl
  | case2 start c front hc ih =>
    rw [cutsBefore, if_pos hc] at h
    obtain ⟨ts, hts, hscan⟩ := ih h
    refine ⟨ts, hts, ?_⟩
    rw [List.cons_append, scan_blank hc, hscan, width_cons, Nat.add_assoc start]
  | case3 start c front hc more span cause hfirst =>
    obtain ⟨token, more', hfirst', -⟩ := first_of_cutsBefore hc h
    rw [hfirst] at hfirst'
    cases hfirst'
  | case4 start c front hc more span token hfirst =>
    rename_i ih
    obtain ⟨token', more', hfirst', hle, hwhole, hcuts⟩ := first_of_cutsBefore hc h
    rw [hfirst] at hfirst'
    cases hfirst'
    obtain ⟨ts, hts, hscan⟩ := ih hcuts
    have hwidth : start + width (c :: front) = span.stop + width (front.drop more) :=
      add_width_cons start c front more
    refine ⟨⟨token, span⟩ :: ts, by rw [hts]; rfl, ?_⟩
    rw [List.cons_append, scan_ok hc hwhole, List.take_append_of_le_length hle,
      List.drop_append_of_le_length hle, hscan, hwidth]
    cases scan (span.stop + width (front.drop more)) after <;> rfl

end BlockLang.Lexeme
