import BlockLang.Record.Basic
import Mathlib.Tactic.Lemma

/-!
# Header slots

A block has slots for the kinds of header that it permits and for no others. A compound block could
as well keep its headers in a rack with a slot of every kind. Main statements: the racks that can
come about are those of blocks, headers are put in and taken out of a rack as they are out of its
block, and a slot is filled when it is there and empty and is the only thing that changes.
-/

namespace BlockLang

/-! ## Racks -/

/-- The headers of a compound block in slots of all kinds, whatever kind of block it is. -/
structure Rack where
  kind : CompoundKind
  slots : ForHeaders := {}

/-- The headers of a compound block in a rack. -/
def Block.rack? : Block → Option Rack
  | action .. => none
  | forLoop _ headers _ => some ⟨.forLoop, headers⟩
  | whileLoop _ condition _ => some ⟨.whileLoop, { condition }⟩
  | ifElse _ condition _ _ => some ⟨.ifElse, { condition }⟩

namespace Rack

def header? (r : Rack) : HeaderKind → Option Header
  | .init => r.slots.init.map .init
  | .condition => r.slots.condition.map .condition
  | .increment => r.slots.increment.map .increment

/-- The slots that the block needs and that are empty. -/
def missing (r : Rack) : List HeaderKind :=
  r.kind.permitted.filter fun kind => (r.header? kind).isNone

def fill (r : Rack) : Header → Rack
  | .init i => { r with slots := { r.slots with init := some i } }
  | .condition c => { r with slots := { r.slots with condition := some c } }
  | .increment step => { r with slots := { r.slots with increment := some step } }

def clear (r : Rack) : HeaderKind → Rack
  | .init => { r with slots := { r.slots with init := none } }
  | .condition => { r with slots := { r.slots with condition := none } }
  | .increment => { r with slots := { r.slots with increment := none } }

/-- Puts a header into its slot. The slot is there in any case, but the block may not permit it. -/
def attach (header : Header) (r : Rack) : Except Block.Refusal Rack :=
  if header.kind ∉ r.kind.permitted then .error .notPermitted
  else if (r.header? header.kind).isSome then .error .duplicate
  else .ok (r.fill header)

/-- Takes the header out of a slot, whether the block permits the slot or not. -/
def take (kind : HeaderKind) (r : Rack) : Option Header × Rack :=
  (r.header? kind, r.clear kind)

/-- The headers that a record gives to the block that it stands for. -/
def ofRecord? : BlockRecord → Option Rack
  | .forLoop counter init condition increment _ => some ⟨.forLoop, {
      init := init.map fun value => ⟨counter.getD defaultCounter, value⟩
      condition := condition.map .ofText
      increment }⟩
  | .whileLoop condition _ => some ⟨.whileLoop, { condition := condition.map .ofText }⟩
  | .ifElse condition _ _ => some ⟨.ifElse, { condition := condition.map .ofText }⟩
  | _ => none

/-- The racks that come about when compound blocks are made, loaded and changed. -/
inductive Arises : Rack → Prop where
  | new (kind : CompoundKind) : Arises ⟨kind, {}⟩
  | load {record : BlockRecord} {r : Rack} (h : ofRecord? record = some r) : Arises r
  | attach {r filled : Rack} (h : Arises r) (header : Header)
    (hfilled : r.attach header = .ok filled) : Arises filled
  | take {r : Rack} (h : Arises r) (kind : HeaderKind) : Arises (r.take kind).2

/-- Only slots that the block permits are filled. -/
def InOrder (r : Rack) : Prop :=
  ∀ kind, (r.header? kind).isSome → kind ∈ r.kind.permitted

variable {r filled : Rack} {header : Header} {kind : HeaderKind}

/-- To fill a slot leaves the others. -/
lemma header?_fill_of_ne (r : Rack) (h : kind ≠ header.kind) :
    (r.fill header).header? kind = r.header? kind := by
  cases header <;> cases kind <;> first | rfl | exact absurd rfl h

/-- To empty a slot leaves the others. -/
lemma header?_clear_of_ne (r : Rack) {other : HeaderKind} (h : other ≠ kind) :
    (r.clear kind).header? other = r.header? other := by
  cases kind <;> cases other <;> first | rfl | exact absurd rfl h

/-! ### Order -/

/-- A for loop can have a header of each kind. -/
lemma inOrder_forLoop (slots : ForHeaders) : InOrder ⟨.forLoop, slots⟩ := by
  intro kind _
  cases kind <;> simp [CompoundKind.permitted]

/-- Every compound block permits a condition. -/
lemma inOrder_condition (compound : CompoundKind) (condition : Option ConditionCode) :
    InOrder ⟨compound, { condition }⟩ := by
  intro kind hkind
  cases kind with
  | init | increment => cases hkind
  | condition => cases compound <;> simp [CompoundKind.permitted]

/-- A header that is permitted keeps a rack in order. -/
lemma InOrder.fill (h : r.InOrder) (hpermitted : header.kind ∈ r.kind.permitted) :
    (r.fill header).InOrder := by
  have hkind : (r.fill header).kind = r.kind := by cases header <;> rfl
  intro kind hfilled
  rw [hkind]
  by_cases heq : kind = header.kind
  · rwa [heq]
  · rw [header?_fill_of_ne r heq] at hfilled
    exact h kind hfilled

/-- To empty a slot keeps a rack in order. -/
lemma InOrder.clear (h : r.InOrder) (kind : HeaderKind) : (r.clear kind).InOrder := by
  have hkind : (r.clear kind).kind = r.kind := by cases kind <;> rfl
  intro other hfilled
  rw [hkind]
  by_cases heq : other = kind
  · subst heq
    cases other <;> cases hfilled
  · rw [header?_clear_of_ne r heq] at hfilled
    exact h other hfilled

/-- The rack of a block is in order. -/
lemma inOrder_of_rack? {b : Block} (h : b.rack? = some r) : r.InOrder := by
  cases b with
  | action tag a => cases h
  | forLoop => exact Option.some.inj h ▸ inOrder_forLoop _
  | whileLoop | ifElse => exact Option.some.inj h ▸ inOrder_condition _ _

/-- A record gives its headers to the block that is loaded. -/
lemma rack?_build (record : BlockRecord) (supply : Supply) :
    (record.build supply).1.bind Block.rack? = ofRecord? record := by
  cases record <;> rfl

/-- A header is attached only if it is permitted, and then it fills its slot. -/
lemma of_attach_ok (h : r.attach header = .ok filled) :
    header.kind ∈ r.kind.permitted ∧ filled = r.fill header := by
  unfold attach at h
  split at h
  · cases h
  · rename_i hpermitted
    split at h
    · cases h
    · exact ⟨Decidable.not_not.mp hpermitted, (Except.ok.inj h).symm⟩

/-- Whatever is done, no slot is filled that the block does not permit. -/
theorem Arises.inOrder (h : r.Arises) : r.InOrder := by
  induction h with
  | new compound => exact inOrder_condition compound none
  | @load record r h =>
    rw [← rack?_build record {}] at h
    obtain ⟨b, -, hb⟩ := Option.bind_eq_some_iff.mp h
    exact inOrder_of_rack? hb
  | attach _ header hfilled ih =>
    obtain ⟨hpermitted, rfl⟩ := of_attach_ok hfilled
    exact ih.fill hpermitted
  | take _ kind ih => exact ih.clear kind

end Rack

/-! ## Racks of blocks -/

namespace Rack

variable {r : Rack} {b : Block}

/-- Only a for loop can have other headers than a condition. -/
lemma InOrder.slots_eq {kind : CompoundKind} {slots : ForHeaders} (h : InOrder ⟨kind, slots⟩)
    (hkind : kind ≠ .forLoop) : slots = { condition := slots.condition } := by
  obtain ⟨init, condition, increment⟩ := slots
  have hpermitted : kind.permitted = [.condition] := by
    cases kind with
    | forLoop => exact absurd rfl hkind
    | whileLoop | ifElse => rfl
  have hinit : init = none := by simpa [header?, hpermitted] using h .init
  have hincrement : increment = none := by simpa [header?, hpermitted] using h .increment
  rw [hinit, hincrement]

/-- Every rack in order is that of a block. -/
lemma InOrder.exists_block (h : r.InOrder) : ∃ b : Block, b.rack? = some r := by
  obtain ⟨kind, slots⟩ := r
  cases kind with
  | forLoop => exact ⟨.forLoop { id := ⟨0⟩ } slots [], rfl⟩
  | whileLoop =>
    rw [h.slots_eq (by simp)]
    exact ⟨.whileLoop { id := ⟨0⟩ } slots.condition [], rfl⟩
  | ifElse =>
    rw [h.slots_eq (by simp)]
    exact ⟨.ifElse { id := ⟨0⟩ } slots.condition [] [], rfl⟩

/-- A for loop is filled slot by slot. -/
lemma arises_forLoop (slots : ForHeaders) : Arises ⟨.forLoop, slots⟩ := by
  obtain ⟨init, condition, increment⟩ := slots
  have hinit : Arises ⟨.forLoop, { init }⟩ := by
    cases init with
    | none => exact .new _
    | some i => exact (Arises.new .forLoop).attach (.init i) rfl
  have hcondition : Arises ⟨.forLoop, { init, condition }⟩ := by
    cases condition with
    | none => exact hinit
    | some c => exact hinit.attach (.condition c) rfl
  cases increment with
  | none => exact hcondition
  | some step => exact hcondition.attach (.increment step) rfl

lemma arises_condition {kind : CompoundKind} (hkind : kind ≠ .forLoop)
    (condition : Option ConditionCode) : Arises ⟨kind, { condition }⟩ := by
  cases condition with
  | none => exact .new kind
  | some c =>
    cases kind with
    | forLoop => exact absurd rfl hkind
    | whileLoop => exact (Arises.new .whileLoop).attach (.condition c) rfl
    | ifElse => exact (Arises.new .ifElse).attach (.condition c) rfl

/-- The racks that come about are those of blocks. -/
theorem arises_iff : r.Arises ↔ ∃ b : Block, b.rack? = some r := by
  constructor
  · exact fun h => h.inOrder.exists_block
  · rintro ⟨b, hb⟩
    cases b with
    | action tag a => cases hb
    | forLoop => exact Option.some.inj hb ▸ arises_forLoop _
    | whileLoop | ifElse => exact Option.some.inj hb ▸ arises_condition (by simp) _

section

variable (h : b.rack? = some r)

include h

lemma compoundKind?_of_rack? : b.compoundKind? = some r.kind := by
  cases b with
  | action tag a => cases h
  | forLoop | whileLoop | ifElse => exact Option.some.inj h ▸ rfl

/-- The headers of a block are those of its rack. -/
lemma header?_of_rack? (kind : HeaderKind) : r.header? kind = b.header? kind := by
  cases b with
  | action tag a => cases h
  | forLoop | whileLoop | ifElse => exact Option.some.inj h ▸ by cases kind <;> rfl

/-- To empty a slot of a block empties that of its rack. -/
lemma rack?_clearHeader (kind : HeaderKind) : (b.clearHeader kind).rack? = some (r.clear kind) := by
  cases b with
  | action tag a => cases h
  | forLoop | whileLoop | ifElse => exact Option.some.inj h ▸ by cases kind <;> rfl

/-- To fill a slot of a block with a header that is permitted fills that of its rack. -/
lemma rack?_setHeader {header : Header} (hpermitted : header.kind ∈ r.kind.permitted) :
    (b.setHeader header).rack? = some (r.fill header) := by
  cases b with
  | action tag a => cases h
  | forLoop => exact Option.some.inj h ▸ by cases header <;> rfl
  | whileLoop | ifElse =>
    obtain rfl := Option.some.inj h
    cases header with
    | condition => rfl
    | init | increment => simp [CompoundKind.permitted, Header.kind] at hpermitted

end

/-- The rack has the headers of the block, and what is done to the one is done to the other. -/
structure Stores (r : Rack) (b : Block) : Prop where
  header? : ∀ kind, r.header? kind = b.header? kind
  missing : r.missing = b.missing
  attach : ∀ header, (b.attach header).map Block.rack? = (r.attach header).map some
  take : ∀ kind, (b.take kind).1 = (r.take kind).1 ∧ (b.take kind).2.rack? = some (r.take kind).2

theorem stores_of_rack? (h : b.rack? = some r) : r.Stores b where
  header? := header?_of_rack? h
  missing := by
    rw [missing, Block.missing, compoundKind?_of_rack? h]
    simp only [header?_of_rack? h, Option.elim_some]
  attach := by
    intro header
    have hpermits : b.permits header.kind = decide (header.kind ∈ r.kind.permitted) := by
      simp [Block.permits, compoundKind?_of_rack? h]
    unfold attach Block.attach
    rw [hpermits, header?_of_rack? h]
    by_cases hpermitted : header.kind ∈ r.kind.permitted
    · cases b.header? header.kind with
      | none => simp [hpermitted, Except.map, rack?_setHeader h hpermitted]
      | some old => simp [hpermitted, Except.map]
    · simp [hpermitted, Except.map]
  take := fun kind => ⟨(header?_of_rack? h kind).symm, rack?_clearHeader h kind⟩

end Rack

/-! ## Slots of blocks -/

namespace Block

/-- A block that is the same apart from what is in one slot. -/
structure SameBut (kind : HeaderKind) (b c : Block) : Prop where
  tag : c.tag = b.tag
  compoundKind? : c.compoundKind? = b.compoundKind?
  parts : c.parts = b.parts
  header? : ∀ other ≠ kind, c.header? other = b.header? other

variable {b c : Block} {header : Header} {kind : HeaderKind}

/-- What is in a slot is of its kind. -/
lemma kind_eq_of_header? (h : b.header? kind = some header) : header.kind = kind := by
  cases kind with
  | condition =>
    obtain ⟨code, -, rfl⟩ := Option.map_eq_some_iff.mp h
    rfl
  | init | increment =>
    cases b with
    | forLoop tag headers body =>
      obtain ⟨value, -, rfl⟩ := Option.map_eq_some_iff.mp h
      rfl
    | action | whileLoop | ifElse => cases h

/-- What is in a slot is permitted. -/
lemma permits_of_header? (h : b.header? kind = some header) : b.permits kind = true := by
  cases kind with
  | condition =>
    cases b with
    | action tag a => cases h
    | forLoop | whileLoop | ifElse => rfl
  | init | increment =>
    cases b with
    | forLoop tag headers body => rfl
    | action | whileLoop | ifElse => cases h

lemma isSome_compoundKind?_of_permits (h : b.permits kind = true) : b.compoundKind?.isSome := by
  cases b with
  | action tag a => cases h
  | forLoop | whileLoop | ifElse => rfl

/-- The slots that a block has are listed in one order, whatever kind of block it is. -/
lemma missing_eq_filter (b : Block) :
    b.missing = [.init, .condition, .increment].filter fun kind =>
      b.permits kind && (b.header? kind).isNone := by
  have hpermitted : b.compoundKind?.elim [] CompoundKind.permitted =
      [.init, .condition, .increment].filter b.permits := by
    cases b <;> rfl
  rw [missing, hpermitted, List.filter_filter]
  simp only [Bool.and_comm]

/-- To fill a slot changes nothing else. -/
lemma sameBut_setHeader (b : Block) (header : Header) :
    b.SameBut header.kind (b.setHeader header) := by
  have hothers : ∀ other ≠ header.kind, (b.setHeader header).header? other = b.header? other := by
    intro other hother
    cases b <;> cases header <;> cases other <;> first | rfl | exact absurd rfl hother
  cases b <;> cases header <;> exact ⟨rfl, rfl, rfl, hothers⟩

/-- To empty a slot changes nothing else. -/
lemma sameBut_clearHeader (b : Block) (kind : HeaderKind) :
    b.SameBut kind (b.clearHeader kind) := by
  have hothers : ∀ other ≠ kind, (b.clearHeader kind).header? other = b.header? other := by
    intro other hother
    cases b <;> cases kind <;> cases other <;> first | rfl | exact absurd rfl hother
  cases b <;> cases kind <;> exact ⟨rfl, rfl, rfl, hothers⟩

/-- A slot that is there has the header that it was filled with. -/
lemma header?_setHeader_self (h : b.permits header.kind = true) :
    (b.setHeader header).header? header.kind = some header := by
  cases b <;> cases header <;> first | rfl | cases h

/-- A slot that was emptied is empty. -/
lemma header?_clearHeader_self (b : Block) (kind : HeaderKind) :
    (b.clearHeader kind).header? kind = none := by
  cases b <;> cases kind <;> rfl

/-- To empty a slot that was empty before it was filled is to undo the filling. -/
lemma clearHeader_setHeader (h : b.header? header.kind = none) :
    (b.setHeader header).clearHeader header.kind = b := by
  cases b with
  | action tag a => rfl
  | forLoop tag headers body =>
    obtain ⟨init, condition, increment⟩ := headers
    cases header <;> simp_all [setHeader, clearHeader, Block.header?, condition?, Header.kind]
  | whileLoop tag condition body =>
    cases header <;> simp_all [setHeader, clearHeader, Block.header?, condition?, Header.kind]
  | ifElse tag condition ifPart elsePart =>
    cases header <;> simp_all [setHeader, clearHeader, Block.header?, condition?, Header.kind]

/-- A header is attached if its slot is there and empty. -/
lemma attach_eq_ok_iff :
    b.attach header = .ok c ↔
      b.permits header.kind = true ∧ b.header? header.kind = none ∧ b.setHeader header = c := by
  unfold attach
  cases hpermits : b.permits header.kind with
  | false => simp
  | true => cases hheader : b.header? header.kind <;> simp

/-- The header slots of a block are used as they are meant to be. -/
structure SlotsInOrder (b : Block) : Prop where
  /-- The headers of a compound block are those of a rack that comes about. -/
  rack : ∀ r, b.rack? = some r → r.Arises ∧ r.InOrder ∧ r.Stores b
  /-- Only slots that the block permits are filled, -/
  permits : ∀ kind header, b.header? kind = some header → header.kind = kind ∧ b.permits kind = true
  /-- and the others that it permits are missing. -/
  missing_eq : b.missing = [.init, .condition, .increment].filter fun kind =>
    b.permits kind && (b.header? kind).isNone
  /-- A header is accepted if its slot is there and empty, -/
  attach_iff : ∀ header, (∃ c, b.attach header = .ok c) ↔
    b.permits header.kind = true ∧ b.header? header.kind = none
  /-- and is then in its slot, with everything else as it was. -/
  attach : ∀ header c, b.attach header = .ok c →
    c.header? header.kind = some header ∧ b.SameBut header.kind c
  /-- What is taken out is what was in the slot, which is then empty. -/
  take : ∀ kind header c, b.take kind = (header, c) →
    header = b.header? kind ∧ c.header? kind = none ∧ b.SameBut kind c
  /-- To take a header out that was just accepted undoes accepting it. -/
  take_attach : ∀ header c, b.attach header = .ok c → c.take header.kind = (some header, b)

theorem slotsInOrder (b : Block) : b.SlotsInOrder where
  rack := by
    intro r h
    have harises : r.Arises := Rack.arises_iff.mpr ⟨b, h⟩
    exact ⟨harises, harises.inOrder, Rack.stores_of_rack? h⟩
  permits := fun _ _ h => ⟨kind_eq_of_header? h, permits_of_header? h⟩
  missing_eq := b.missing_eq_filter
  attach_iff := by
    intro header
    simp only [attach_eq_ok_iff, exists_and_left, exists_eq', and_true]
  attach := by
    intro header c h
    obtain ⟨hpermits, -, rfl⟩ := attach_eq_ok_iff.mp h
    exact ⟨header?_setHeader_self hpermits, b.sameBut_setHeader header⟩
  take := by
    intro kind header c h
    obtain ⟨rfl, rfl⟩ := Prod.mk.inj h
    exact ⟨rfl, b.header?_clearHeader_self kind, b.sameBut_clearHeader kind⟩
  take_attach := by
    intro header c h
    obtain ⟨hpermits, hempty, rfl⟩ := attach_eq_ok_iff.mp h
    exact Prod.ext (header?_setHeader_self hpermits) (clearHeader_setHeader hempty)

end Block

end BlockLang
