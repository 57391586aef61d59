import BlockLang.Proofs.Record.RoundTrip

/-!
# Records in canonical form

A program that is loaded from records and saved again gives the canonical form of the records:
without empty slots inside blocks, without default names, and without the name of a counter that
does not start. Main statement: loading and saving bring records into canonical form, and doing it
again changes nothing.
-/

namespace BlockLang

/-! ## Canonical form -/

namespace BlockRecord

/-- Whether the record is that of an empty slot. -/
def isEmpty : BlockRecord → Bool
  | empty => true
  | _ => false

mutual

/-- The record without what is not saved again. -/
def canonical : BlockRecord → BlockRecord
  | addCounter name => addCounter (name.filter (· ≠ defaultCounter))
  | forLoop counter init condition increment body =>
    -- The name of a counter is kept with its start.
    let counter := if init.isSome then counter.filter (· ≠ defaultCounter) else none
    forLoop counter init condition increment (canonicalAll body)
  | whileLoop condition body => whileLoop condition (canonicalAll body)
  | ifElse condition ifPart elsePart =>
    ifElse condition (canonicalAll ifPart) (canonicalAll elsePart)
  | r => r

/-- The canonical forms of the records inside a block. There are no empty slots among them. -/
def canonicalAll : List BlockRecord → List BlockRecord
  | [] => []
  | r :: rs => if r.isEmpty then canonicalAll rs else r.canonical :: canonicalAll rs

end

/-! ## Loading and saving -/

/-- The name of a counter is saved unless it is the default. -/
lemma unlessDefault_getD (name : Option String) :
    unlessDefault (name.getD defaultCounter) = name.filter (· ≠ defaultCounter) := by
  cases name with
  | none => rfl
  | some name =>
    by_cases h : name = defaultCounter
    · simp [unlessDefault, Option.filter, h]
    · simp [unlessDefault, Option.filter, h]

/-- The name of a counter is saved if the counter has a start. -/
lemma counter_saved (counter : Option String) (init : Option Float) :
    ((init.map fun value => (⟨counter.getD defaultCounter, value⟩ : Init)).bind
        fun i => unlessDefault i.counter) =
      if init.isSome then counter.filter (· ≠ defaultCounter) else none := by
  cases init with
  | none => rfl
  | some value => exact unlessDefault_getD counter

/-- The start value of a counter is saved. -/
lemma init_saved (counter : Option String) (init : Option Float) :
    ((init.map fun value => (⟨counter.getD defaultCounter, value⟩ : Init)).map Init.value) =
      init := by
  cases init <;> rfl

/-- The text of a condition is saved whether or not it could be parsed. -/
lemma condition_saved (condition : Option String) :
    ((condition.map Code.ofText : Option ConditionCode).map Code.text) = condition := by
  cases condition <;> rfl

mutual

/-- A record that is built is saved in its canonical form. -/
theorem map_record_build (r : BlockRecord) (supply : Supply) :
    (r.build supply).1.map Block.record = if r.isEmpty then none else some r.canonical := by
  cases r with
  | statement text locked => rfl
  | print => rfl
  | leave => rfl
  | addCounter name =>
    have hname := unlessDefault_getD name
    simp only [build, Option.map_some, Block.record, canonical, isEmpty, hname,
      Bool.false_eq_true, if_false]
  | forLoop counter init condition increment body =>
    have hbody := records_buildList body supply
    simp only [build, Option.map_some, Block.record, canonical, isEmpty, counter_saved,
      init_saved, condition_saved, hbody, Bool.false_eq_true, if_false]
  | whileLoop condition body =>
    have hbody := records_buildList body supply
    simp only [build, Option.map_some, Block.record, canonical, isEmpty, condition_saved, hbody,
      Bool.false_eq_true, if_false]
  | ifElse condition ifPart elsePart =>
    have hif := records_buildList ifPart supply
    have helse := records_buildList elsePart (buildList ifPart supply).2
    simp only [build, Option.map_some, Block.record, canonical, isEmpty, condition_saved, hif,
      helse, Bool.false_eq_true, if_false]
  | empty => rfl

theorem records_buildList (rs : List BlockRecord) (supply : Supply) :
    Block.records (buildList rs supply).1 = canonicalAll rs := by
  cases rs with
  | nil => rfl
  | cons r rs =>
    have hr := map_record_build r supply
    have hrs := records_buildList rs (r.build supply).2
    rw [buildList, canonicalAll]
    cases hb : (r.build supply).1 with
    | none =>
      rw [hb] at hr
      cases hempty : r.isEmpty with
      | true => simpa [hb] using hrs
      | false => simp [hempty] at hr
    | some b =>
      rw [hb] at hr
      cases hempty : r.isEmpty with
      | true => simp [hempty] at hr
      | false =>
        simp only [hempty, Option.map_some, Bool.false_eq_true, if_false,
          Option.some.injEq] at hr
        simp [hb, Block.records, hr, hrs]

end

/-- In a slot of the program an empty slot is kept. -/
lemma elim_record_build (r : BlockRecord) (supply : Supply) :
    (r.build supply).1.elim .empty Block.record = r.canonical := by
  have hr := r.map_record_build supply
  cases r with
  | empty => rfl
  | _ =>
    obtain ⟨b, hb, hrecord⟩ := Option.map_eq_some_iff.mp hr
    rw [hb]
    exact hrecord

/-- The slots that are built are saved in their canonical form. -/
lemma records_buildSlots (rs : List BlockRecord) (supply : Supply) :
    (Program.mk (buildSlots rs supply).1).records = rs.map canonical := by
  induction rs generalizing supply with
  | nil => rfl
  | cons r rs ih => exact congrArg₂ List.cons (r.elim_record_build supply) (ih _)

end BlockRecord

/-! ## What is saved of programs that are the same -/

mutual

lemma Block.record_bare (b : Block) : b.bare.record = b.record := by
  cases b with
  | action tag a => cases a <;> rfl
  | forLoop tag headers body => simp only [bare, record, Block.records_bareAll body]
  | whileLoop tag condition body => simp only [bare, record, Block.records_bareAll body]
  | ifElse tag condition ifPart elsePart =>
    simp only [bare, record, Block.records_bareAll ifPart, Block.records_bareAll elsePart]

lemma Block.records_bareAll (bs : List Block) : Block.records (Block.bareAll bs) = records bs := by
  cases bs with
  | nil => rfl
  | cons b bs => simp only [bareAll, records, Block.record_bare b, Block.records_bareAll bs]

end

namespace Program

/-- What is saved of a program is told by its bare slots. -/
lemma records_eq_map_bare (p : Program) :
    p.records = (p.slots.map (Option.map Block.bare)).map fun slot =>
      slot.elim .empty Block.record := by
  rw [records, List.map_map]
  refine List.map_congr_left fun slot _ => ?_
  cases slot with
  | none => rfl
  | some b => exact b.record_bare.symm

/-- A program that was saved and loaded is saved as before. -/
theorem records_ofRecords_records (p : Program) (supply : Supply) :
    (ofRecords p.records supply).1.records = p.records := by
  rw [records_eq_map_bare, bare_ofRecords_records, ← records_eq_map_bare]

/-- To load records and to save the program brings each record into canonical form, and to do it
twice is to do it once. -/
theorem records_ofRecords_canonical (records : List BlockRecord) (supply again : Supply) :
    (ofRecords records supply).1.records = records.map BlockRecord.canonical ∧
      (ofRecords (ofRecords records supply).1.records again).1.records =
        (ofRecords records supply).1.records :=
  ⟨BlockRecord.records_buildSlots records supply, records_ofRecords_records _ again⟩

end Program

/-- The gap in the slots stays and the one in the body does not. Of the names only `"k"` is needed,
for the counter that has a start. -/
example :
    (Program.ofRecords [
      .empty,
      .forLoop (some "k") (some 1) (some "k <") none [.addCounter (some "i"), .empty],
      .forLoop (some "k") none none (some 2) [.statement "x +=" true]] {}).1.records = [
      .empty,
      .forLoop (some "k") (some 1) (some "k <") none [.addCounter none],
      .forLoop none none none (some 2) [.statement "x +=" true]] := by
  rfl

end BlockLang
