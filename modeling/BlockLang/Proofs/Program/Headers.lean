import BlockLang.Proofs.Program.Invariants

/-!
# Headers of a program

Main statements: headers are put into blocks of a program and taken out of them as they are with
blocks in hand, without a change to anything around, and a header stays in its slot, wherever its
block is taken, until it is taken out of the slot.
-/

namespace BlockLang

/-! ## Putting headers in and taking them out -/

namespace Program

variable {p q : Program} {id : BlockId} {header : Header} {kind : HeaderKind}

/-- The place of a compound block is given by `compound?`. -/
lemma compound?_eq_ok {place : Place Block Program} (h : p.place? id = some place)
    (hkind : place.content.compoundKind?.isSome) : p.compound? id = .ok place := by
  simp [compound?, h, ← Option.not_isSome, hkind]

/-- `attach` succeeds where the block at the place of the identifier takes the header. -/
lemma attach_eq_ok_iff :
    p.attach id header = (.ok (), q) ↔ ∃ place filled, p.place? id = some place ∧
      place.content.attach header = .ok filled ∧ place.put filled = q := by
  constructor
  · intro h
    unfold attach at h
    split at h
    · cases h
    · rename_i place hplace
      split at h
      · cases h
      · rename_i filled hfilled
        exact ⟨place, filled, exists_place?_of_compound? hplace, hfilled, congrArg Prod.snd h⟩
  · rintro ⟨place, filled, hplace, hfilled, rfl⟩
    have hkind := Block.isSome_compoundKind?_of_permits (Block.attach_eq_ok_iff.mp hfilled).1
    simp only [attach, compound?_eq_ok hplace hkind, hfilled]

/-- `detach` succeeds where the block at the place of the identifier has the header. -/
lemma detach_eq_ok_iff :
    p.detach id kind = (.ok header, q) ↔
      ∃ place, p.place? id = some place ∧ place.content.header? kind = some header ∧
        place.put (place.content.clearHeader kind) = q := by
  constructor
  · intro h
    unfold detach at h
    split at h
    · cases h
    · rename_i place hplace
      split at h
      · cases h
      · rename_i taken rest htake
        obtain ⟨hheader, rfl⟩ := Prod.mk.inj htake
        obtain ⟨hsame, hq⟩ := Prod.mk.inj h
        rw [Except.ok.inj hsame] at hheader
        exact ⟨place, exists_place?_of_compound? hplace, hheader, hq⟩
  · rintro ⟨place, hplace, hheader, rfl⟩
    have hkind := Block.isSome_compoundKind?_of_permits (Block.permits_of_header? hheader)
    simp only [detach, compound?_eq_ok hplace hkind, Block.take, hheader]

/-- Headers are put into the blocks of a program and taken out as they are with a single block. -/
structure HeadersInOrder (p : Program) : Prop where
  /-- A header is accepted if the block with the id has a slot for it and the slot is empty, -/
  attach_iff : ∀ id header, (p.attach id header).1 = .ok () ↔
    ∃ b ∈ p.family, b.id = id ∧ b.permits header.kind = true ∧ b.header? header.kind = none
  /-- and then the block accepts it and nothing else changes. -/
  attach : ∀ id header q, p.attach id header = (.ok (), q) →
    ∃ b ∈ p.family, b.id = id ∧ ∃ filled, b.attach header = .ok filled ∧
      q = p.modify id fun _ => filled
  /-- A header is handed back if it is in the slot of the block with the id, -/
  detach_iff : ∀ id kind header, (p.detach id kind).1 = .ok header ↔
    ∃ b ∈ p.family, b.id = id ∧ b.header? kind = some header
  /-- and then it is taken out of the block and nothing else changes. -/
  detach : ∀ id kind header q, p.detach id kind = (.ok header, q) →
    ∃ b ∈ p.family, b.id = id ∧ ∃ emptied, b.take kind = (some header, emptied) ∧
      q = p.modify id fun _ => emptied
  /-- To take a header out that was just accepted undoes accepting it. -/
  detach_attach : ∀ id header q, p.attach id header = (.ok (), q) →
    q.detach id header.kind = (.ok header, p)

/-- With distinct identifiers, the blocks with a place are those of the program. -/
lemma exists_place?_iff (h : p.ids.Nodup) {b : Block} :
    (∃ place, p.place? id = some place ∧ place.content = b) ↔ b ∈ p.family ∧ b.id = id := by
  rw [← find?_eq_some_iff h, ← map_content_place?, Option.map_eq_some_iff]

/-- Distinct identifiers are all that the order of headers asks of a program. -/
theorem headersInOrder_of_nodup (h : p.ids.Nodup) : p.HeadersInOrder where
  attach_iff := by
    intro id header
    constructor
    · intro hok
      obtain ⟨place, filled, hplace, hfilled, -⟩ := attach_eq_ok_iff.mp (Prod.ext hok rfl)
      obtain ⟨hpermits, hempty, -⟩ := Block.attach_eq_ok_iff.mp hfilled
      exact ⟨_, mem_family_of_place? hplace, id_of_place? hplace, hpermits, hempty⟩
    · rintro ⟨b, hb, hid, hpermits, hempty⟩
      obtain ⟨place, hplace, rfl⟩ := (exists_place?_iff h).mpr ⟨hb, hid⟩
      have hfilled := Block.attach_eq_ok_iff.mpr ⟨hpermits, hempty, rfl⟩
      rw [attach_eq_ok_iff.mpr ⟨place, _, hplace, hfilled, rfl⟩]
  attach := by
    intro id header q hok
    obtain ⟨place, filled, hplace, hfilled, rfl⟩ := attach_eq_ok_iff.mp hok
    exact ⟨_, mem_family_of_place? hplace, id_of_place? hplace, filled, hfilled,
      put_eq_modify h hplace fun _ => filled⟩
  detach_iff := by
    intro id kind header
    constructor
    · intro hok
      obtain ⟨place, hplace, hheader, -⟩ := detach_eq_ok_iff.mp (Prod.ext hok rfl)
      exact ⟨_, mem_family_of_place? hplace, id_of_place? hplace, hheader⟩
    · rintro ⟨b, hb, hid, hheader⟩
      obtain ⟨place, hplace, rfl⟩ := (exists_place?_iff h).mpr ⟨hb, hid⟩
      rw [detach_eq_ok_iff.mpr ⟨place, hplace, hheader, rfl⟩]
  detach := by
    intro id kind header q hok
    obtain ⟨place, hplace, hheader, rfl⟩ := detach_eq_ok_iff.mp hok
    refine ⟨_, mem_family_of_place? hplace, id_of_place? hplace, place.content.clearHeader kind, ?_,
      put_eq_modify h hplace fun _ => place.content.clearHeader kind⟩
    rw [Block.take, hheader]
  detach_attach := by
    intro id header q hok
    obtain ⟨place, filled, hplace, hfilled, rfl⟩ := attach_eq_ok_iff.mp hok
    obtain ⟨hpermits, hempty, rfl⟩ := Block.attach_eq_ok_iff.mp hfilled
    -- The search goes to the same place as before, and what was there before is put back.
    have hid : (place.content.setHeader header).id = id := by
      rw [Block.id, (place.content.sameBut_setHeader header).tag]
      exact id_of_place? hplace
    refine detach_eq_ok_iff.mpr
      ⟨_, place?_put hplace hid, Block.header?_setHeader_self hpermits, ?_⟩
    show place.put ((place.content.setHeader header).clearHeader header.kind) = p
    rw [Block.clearHeader_setHeader hempty, (lawful_of_place? hplace).put_content]

end Program

/-! ## Headers that stay -/

/-- If the block has the id, the header is in its slot. -/
def Block.Holds (id : BlockId) (kind : HeaderKind) (header : Header) (b : Block) : Prop :=
  b.id = id → b.header? kind = some header

namespace Block.Holds

variable {id : BlockId} {kind : HeaderKind} {header : Header} {b c : Block}

/-- Which header a block holds does not depend on the blocks in it. -/
lemma shallow : Shallow (Holds id kind header) := by
  intro b part bs h
  cases b <;> cases kind <;> exact h

/-- Another header attached does not take away the first. -/
lemma attach {added : Header} (h : b.Holds id kind header) (hc : b.attach added = .ok c) :
    c.Holds id kind header := by
  obtain ⟨-, hempty, rfl⟩ := attach_eq_ok_iff.mp hc
  have hsame := b.sameBut_setHeader added
  intro hid
  have hheader : b.header? kind = some header := h (by rwa [Block.id, ← hsame.tag])
  -- The slot that is filled was empty, so it is another one.
  have hne : kind ≠ added.kind := by
    rintro rfl
    rw [hempty] at hheader
    cases hheader
  rw [hsame.header? kind hne, hheader]

/-- A header stays unless it is the one that is taken. -/
lemma take {taken : HeaderKind} (h : b.Holds id kind header) (hne : b.id = id → taken ≠ kind) :
    (b.take taken).2.Holds id kind header := by
  have hsame := b.sameBut_clearHeader taken
  intro hid
  have hb : b.id = id := by rwa [Block.id, ← hsame.tag]
  rw [Block.take, hsame.header? kind (hne hb).symm, h hb]

/-- Locks and layers do not matter to the headers. -/
lemma withTag {tag : Tag} (h : b.Holds id kind header) (htag : tag.id = b.id) :
    (b.withTag tag).Holds id kind header := by
  intro hid
  have hb : b.id = id := by
    rw [← htag, ← hid]
    cases b <;> rfl
  rw [← h hb]
  cases b <;> cases kind <;> rfl

end Block.Holds

namespace Session

variable {s t : Session} {id : BlockId} {kind : HeaderKind} {header : Header}

/-- The step is an attempt to take the header out of the slot of the block with the id. -/
inductive TakesOut (id : BlockId) (kind : HeaderKind) : Session → Session → Prop where
  | call {before after : List Program} {p : Program} {hand : List Block} {supply : Supply} :
    TakesOut id kind ⟨before ++ p :: after, hand, supply⟩
      ⟨before ++ (p.detach id kind).2 :: after, hand, supply⟩
  | hand {programs : List Program} {hand : List Block} {supply : Supply} {b : Block}
    (h : b.id = id) :
    TakesOut id kind ⟨programs, b :: hand, supply⟩ ⟨programs, (b.take kind).2 :: hand, supply⟩

/-- No block comes into the hand or leaves it. -/
lemma TakesOut.length_hand (h : TakesOut id kind s t) : t.hand.length = s.hand.length := by
  cases h <;> rfl

/-- The second session comes out of the first by steps that do not take the header out. -/
def ReachesWith (id : BlockId) (kind : HeaderKind) : Session → Session → Prop :=
  Relation.ReflTransGen fun s t => Step s t ∧ ¬ TakesOut id kind s t

lemma handedBack_detach (p : Program) (id : BlockId) (kind : HeaderKind) :
    Call.handedBack (Call.run p (.detach id kind)).1 = [] := by
  rw [Call.run, Call.handing]
  cases (p.detach id kind).1 <;> rfl

/-- A change of one block leaves a header in its slot unless it is taken out. -/
lemma Changes.holds {b c : Block} (h : Changes s t b c) (hstays : ¬ TakesOut id kind s t)
    (hb : b.Holds id kind header) : c.Holds id kind header := by
  cases h with
  | call h =>
    cases h with
    | attach hc => exact hb.attach hc
    | detach _ taken =>
      refine hb.take ?_
      rintro rfl rfl
      rw [handedBack_detach] at hstays
      exact hstays .call
    | moveToTop => exact hb.withTag rfl
    | setTag => exact hb.withTag rfl
  | hand h =>
    cases h with
    | attach hc => exact hb.attach hc
    | take taken =>
      refine hb.take ?_
      rintro hid rfl
      exact hstays (.hand hid)
    | tag => exact hb.withTag rfl

/-- A header stays in its slot in a step that does not take it out. -/
lemma Step.holds (h : Step s t) (hs : s.Sound) (hid : id.number < s.supply.next)
    (hstays : ¬ TakesOut id kind s t) (hall : ∀ b ∈ s.family, b.Holds id kind header) :
    ∀ b ∈ t.family, b.Holds id kind header := by
  refine h.forall_family hs Block.Holds.shallow ?_ (fun b c hc => hc.holds hstays) hall
  rintro b hfresh rfl
  exact absurd hfresh (Nat.not_le_of_lt hid)

/-- A header stays in its slot, wherever its block is taken, until it is taken out. -/
theorem ReachesWith.holds (h : ReachesWith id kind s t) (hs : s.Sound)
    (hid : id.number < s.supply.next) (hall : ∀ b ∈ s.family, b.Holds id kind header) :
    t.Sound ∧ ∀ b ∈ t.family, b.Holds id kind header := by
  suffices hboth : t.Sound ∧ id.number < t.supply.next ∧ ∀ b ∈ t.family, b.Holds id kind header from
    ⟨hboth.1, hboth.2.2⟩
  induction h with
  | refl => exact ⟨hs, hid, hall⟩
  | tail _ hstep ih =>
    obtain ⟨hsound, hid, hall⟩ := ih
    obtain ⟨hstep, hstays⟩ := hstep
    obtain ⟨_, _, hissues, _⟩ := hstep.exists_issues hsound
    exact ⟨hsound.step hstep, Nat.lt_of_lt_of_le hid hissues.le,
      hstep.holds hsound hid hstays hall⟩

/-- Taking a header out of a slot succeeds where the block with the id is, and gives this one. -/
structure Gives (id : BlockId) (kind : HeaderKind) (header : Header) (s : Session) : Prop where
  call : ∀ p ∈ s.programs, id ∈ p.ids → (p.detach id kind).1 = .ok header
  hand : ∀ b ∈ s.hand, b.id = id → (b.take kind).1 = some header

/-- A header in a slot of a block is the one that is taken out, wherever the block is taken. -/
theorem Reachable.gives (hs : s.Reachable) {b : Block} (hb : b ∈ s.family)
    (hheader : b.header? kind = some header) (h : ReachesWith b.id kind s t) :
    t.Gives b.id kind header := by
  have hsound := hs.sound
  have hid : b.id ∈ s.ids := by
    rw [← map_id_family]
    exact List.mem_map_of_mem hb
  -- No other block has the id of this one.
  have hall : ∀ c ∈ s.family, c.Holds b.id kind header := by
    intro c hc hsame
    have hnodup := hsound.nodup
    rw [← map_id_family] at hnodup
    rwa [List.inj_on_of_nodup_map hnodup hc hb hsame]
  obtain ⟨hsound, hall⟩ := h.holds hsound (hsound.taken b.id hid) hall
  rw [forall_family_iff] at hall
  obtain ⟨hprograms, hhand⟩ := hall
  constructor
  · intro p hp hid
    obtain ⟨c, hc, hsame⟩ := List.mem_map.mp hid
    have horder := Program.headersInOrder_of_nodup (hsound.nodup_of_mem hp)
    exact (horder.detach_iff b.id kind header).mpr ⟨c, hc, hsame, hprograms p hp c hc hsame⟩
  · intro c hc hsame
    exact Block.forall_families_iff.mp hhand c hc c c.mem_family_self hsame

/-- The step puts the header into its slot of the block with the id. -/
inductive PutsIn (id : BlockId) (header : Header) : Session → Session → Prop where
  | call {before after : List Program} {p q : Program} {hand : List Block} {supply : Supply}
    (h : p.attach id header = (.ok (), q)) :
    PutsIn id header ⟨before ++ p :: after, hand, supply⟩ ⟨before ++ q :: after, hand, supply⟩
  | hand {programs : List Program} {hand : List Block} {supply : Supply} {b filled : Block}
    (hid : b.id = id) (h : b.attach header = .ok filled) :
    PutsIn id header ⟨programs, b :: hand, supply⟩ ⟨programs, filled :: hand, supply⟩

/-- To put a header in is a step of the session. -/
lemma PutsIn.step (h : PutsIn id header s t) : Step s t := by
  cases h with
  | @call before after p q hand supply h =>
    have hstep := @Step.edit before after p hand supply (.attach id header)
    rwa [Call.run, h] at hstep
  | hand _ h => exact .change (.attach h)

/-- Afterwards there is a block with the identifier that holds the header. -/
lemma PutsIn.exists_mem_family (h : PutsIn id header s t) :
    ∃ b ∈ t.family, b.id = id ∧ b.header? header.kind = some header := by
  cases h with
  | @call before after p q hand supply h =>
    obtain ⟨place, filled, hplace, hfilled, rfl⟩ := Program.attach_eq_ok_iff.mp h
    obtain ⟨hheader, hsame⟩ := place.content.slotsInOrder.attach header filled hfilled
    have hid : filled.id = id := by
      rw [Block.id, hsame.tag]
      exact Program.id_of_place? hplace
    have hmem := Program.mem_family_of_place? (Program.place?_put hplace hid)
    refine ⟨filled, List.mem_append_left _ ?_, hid, hheader⟩
    exact List.mem_flatMap.mpr ⟨place.put filled, List.mem_append_right _ List.mem_cons_self, hmem⟩
  | @hand programs hand supply b filled hid h =>
    obtain ⟨hheader, hsame⟩ := b.slotsInOrder.attach header filled h
    refine ⟨filled, List.mem_append_right _ ?_, by rwa [Block.id, hsame.tag], hheader⟩
    exact List.mem_append_left _ filled.mem_family_self

/-- What is taken out of a slot is what was last put in, wherever the block was taken since. -/
theorem Reachable.gives_of_putsIn {u : Session} (hs : s.Reachable) (hput : PutsIn id header s t)
    (h : ReachesWith id header.kind t u) : u.Gives id header.kind header := by
  obtain ⟨b, hb, rfl, hheader⟩ := hput.exists_mem_family
  have ht : t.Reachable := .tail hs hput.step
  exact ht.gives hb hheader h

end Session

end BlockLang
