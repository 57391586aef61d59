import BlockLang.Proofs.Expr.Ends
import BlockLang.Proofs.Expr.Moved

/-!
# Semicolons

No lexeme goes on across a semicolon. Main statements: the lexemes of two texts with a semicolon
between them are those of the first, the semicolon, and those of the second, moved behind it; and a
text without anything but blanks and semicolons is one whose segments are all empty.
-/

namespace BlockLang

namespace Lexeme

variable {start : Nat} {text rest : List Char}

/-! ## Scanning on both sides -/

def semicolonAt (start : Nat) : Lexeme := ⟨.symbol .semicolon, ⟨start, start + 1⟩⟩

/-- A semicolon is a lexeme of its own, whatever is behind it. -/
lemma scan_semicolon (start : Nat) (rest : List Char) :
    scan start (';' :: rest) = (scan (start + 1) rest).map (semicolonAt start :: ·) :=
  scan_ok (show ¬ isBlank ';' by decide) rfl

/-- A text with a semicolon in it is scanned up to there and behind it. -/
theorem scan_append_semicolon (start : Nat) (text rest : List Char) :
    scan start (text ++ ';' :: rest) = (do
      let ts ← scan start text
      let us ← scan (start + width text + 1) rest
      return ts ++ semicolonAt (start + width text) :: us) := by
  rw [scan_append_cons (by decide)]
  refine bind_congr fun ts => ?_
  rw [scan_semicolon]
  cases scan (start + width text + 1) rest <;> rfl

/-! ## Scanning elsewhere -/

/-- A text at a later place has the same lexemes, moved there. -/
theorem scan_add (start offset : Nat) (text : List Char) :
    scan (start + offset) text =
      ((scan start text).map (List.map (moved (· + offset)))).mapError
        (ParseError.moved (· + offset)) := by
  fun_induction scan start text with
  | case1 start =>
    rw [scan]
    rfl
  | case2 start c text hc ih => rw [scan_blank hc, Nat.add_right_comm, ih]
  | case3 start c text hc more span cause hfirst =>
    rw [scan_error hc hfirst, Nat.add_right_comm]
    rfl
  | case4 start c text hc more span token hfirst =>
    rename_i ih
    rw [scan_ok hc hfirst, Nat.add_right_comm, ih]
    cases scan span.stop (text.drop more) <;> rfl

/-! ## Texts of blanks and semicolons -/

/-- A character that begins no lexeme but a semicolon. -/
def isDivider (c : Char) : Bool :=
  isBlank c || c == ';'

/-- A divider is a blank or a semicolon. -/
lemma eq_of_isDivider {c : Char} (hc : isDivider c) :
    c = ' ' ∨ c = '\t' ∨ c = '\n' ∨ c = '\r' ∨ c = ';' := by
  simpa [isDivider, isBlank, or_assoc] using hc

/-- Of all tokens, only the semicolon is written with dividers. -/
lemma Spells.all_isDivider_iff {token : Token} {part : List Char} (h : Spells token part) :
    part.all isDivider ↔ token = .symbol .semicolon := by
  cases h with
  | @number c tail d begins whole value =>
    have hc : ¬ isDivider c := fun hc => by
      rcases eq_of_isDivider hc with rfl | rfl | rfl | rfl | rfl <;> cases begins
    simp [hc]
  | @word c tail token begins whole value =>
    have hc : ¬ isDivider c := fun hc => by
      rcases eq_of_isDivider hc with rfl | rfl | rfl | rfl | rfl <;> cases begins
    simp [hc, ← value, wordToken_ne_symbol]
  | symbol whole =>
    unfold symbolOf? at whole
    split at whole
    all_goals cases whole
    all_goals decide

/-- A text is all blanks and semicolons when its lexemes are semicolons. -/
lemma Layout.all_isDivider_iff {ts : List Lexeme} (h : Layout start text ts) :
    text.all isDivider ↔ ∀ t ∈ ts, t.token = .symbol .semicolon := by
  have hgap {gap : List Char} (blank : gap.all isBlank) : gap.all isDivider := by
    rw [List.all_eq_true] at blank ⊢
    intro c hc
    rw [isDivider, blank c hc, Bool.true_or]
  induction h with
  | nil blank => simp [hgap blank]
  | cons blank spells others ih =>
    rw [List.all_append, List.all_append, hgap blank, Bool.true_and, Bool.and_eq_true,
      List.forall_mem_cons]
    exact and_congr spells.all_isDivider_iff ih

/-- Dividers can be scanned. -/
lemma exists_scan_of_all_isDivider (start : Nat) (h : text.all isDivider) :
    ∃ ts, scan start text = .ok ts := by
  induction text generalizing start with
  | nil => exact ⟨[], by rw [scan]⟩
  | cons c text ih =>
    rw [List.all_cons, Bool.and_eq_true] at h
    by_cases hc : isBlank c = true
    · rw [scan_blank hc]
      exact ih _ h.2
    · have hsemicolon : c = ';' := by simpa [isDivider, hc] using h.1
      obtain ⟨ts, hts⟩ := ih (start + 1) h.2
      rw [hsemicolon, scan_semicolon, hts]
      exact ⟨_, rfl⟩

end Lexeme

end BlockLang
