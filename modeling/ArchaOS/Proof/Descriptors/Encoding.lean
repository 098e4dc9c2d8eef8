import ArchaOS.Construction.Descriptors

namespace ArchaOS.Descriptors

open Library

/-- The flag splits into the access byte and the four flags above the limit. -/
def segmentFields (base limit : BitVec 32) (flag : BitVec 16) : SegmentDescriptor where
  base := base
  limit := limit.setWidth 20
  access := flag.setWidth 8
  flags := flag.extractLsb' 12 4

/-- A segment descriptor is the encoding of its fields. -/
theorem createDescriptor_encodes (base limit : BitVec 32) (flag : BitVec 16) :
    createDescriptor base limit flag = (segmentFields base limit flag).encode := by
  apply BitVec.eq_of_getLsbD_eq
  intro index inside
  simp only [createDescriptor, segmentFields, SegmentDescriptor.encode, BitVec.getLsbD_append,
    BitVec.getLsbD_extractLsb', BitVec.getLsbD_or, BitVec.getLsbD_and, BitVec.getLsbD_shiftLeft,
    BitVec.getLsbD_ushiftRight, BitVec.getLsbD_setWidth, BitVec.getLsbD_signExtend]
  interval_cases index <;> simp

/-- The bits of a flag that a descriptor has no place for are those that 0xF0FF clears. -/
theorem flag_split (flag : BitVec 16) :
    flag.extractLsb' 12 4 ++ 0#4 ++ flag.setWidth 8 = flag &&& 0xF0FF := by
  ext index inside
  simp only [BitVec.getElem_append, BitVec.getElem_and, BitVec.getElem_extractLsb',
    BitVec.getElem_setWidth, BitVec.getElem_zero]
  interval_cases index <;> simp

/-- A segment descriptor decodes to what it was made from. -/
theorem createDescriptor_decodes (base limit : BitVec 32) (flag : BitVec 16) :
    let fields := SegmentDescriptor.decode (createDescriptor base limit flag)
    fields.base = base ∧ fields.limit.toNat = limit.toNat % 2 ^ 20 ∧
      fields.flags ++ 0#4 ++ fields.access = flag &&& 0xF0FF := by
  rw [createDescriptor_encodes, SegmentDescriptor.decode_encode]
  exact ⟨rfl, BitVec.toNat_setWidth 20 limit, flag_split flag⟩

/-- The descriptor of a task state segment: present, privilege 0, an available 64-bit segment. -/
def tssFields (base : BitVec 64) (limit : BitVec 32) : SystemDescriptor where
  base := base
  limit := limit.setWidth 20
  access := 0x89
  flags := 0

/-- The two entries of the TSS are the encoding of its fields. -/
theorem setTssDescriptor_encodes (gdt : Gdt) (base : BitVec 64) (limit : BitVec 32) :
    (setTssDescriptor gdt base limit tssGdtIndex, setTssDescriptor gdt base limit (tssGdtIndex + 1)) =
      (tssFields base limit).encode := by
  have apart : tssGdtIndex ≠ tssGdtIndex + 1 := by decide
  rw [setTssDescriptor, Function.update_self, Function.update_of_ne apart, Function.update_self]
  apply Prod.ext
  · apply BitVec.eq_of_getLsbD_eq
    intro index inside
    simp only [tssFields, SystemDescriptor.encode, SegmentDescriptor.encode, BitVec.getLsbD_append,
      BitVec.getLsbD_extractLsb', BitVec.getLsbD_or, BitVec.getLsbD_and, BitVec.getLsbD_shiftLeft,
      BitVec.getLsbD_ushiftRight, BitVec.getLsbD_setWidth]
    interval_cases index <;> simp
  · apply BitVec.eq_of_getLsbD_eq
    intro index inside
    simp only [tssFields, SystemDescriptor.encode, BitVec.getLsbD_ushiftRight,
      BitVec.getLsbD_setWidth, BitVec.getLsbD_extractLsb']
    by_cases low : index < 32
    · simp [low, inside]
    · have high : 64 ≤ 32 + index := by omega
      simp [low, BitVec.getLsbD_of_ge base _ high]

/-- The two entries of the TSS decode to what they were made from. -/
theorem setTssDescriptor_decodes (gdt : Gdt) (base : BitVec 64) (limit : BitVec 32) :
    let fields := SystemDescriptor.decode
      (setTssDescriptor gdt base limit tssGdtIndex, setTssDescriptor gdt base limit (tssGdtIndex + 1))
    fields.base = base ∧ fields.limit.toNat = limit.toNat % 2 ^ 20 ∧ fields.access = 0x89 := by
  rw [setTssDescriptor_encodes, SystemDescriptor.decode_encode]
  exact ⟨rfl, BitVec.toNat_setWidth 20 limit, rfl⟩

/-- The segments of the kernel and of the user span the address space, and they differ in the access
byte and the flags alone. The old contents of the table are gone. -/
theorem initGdt_entries (gdt : Gdt) :
    initGdt gdt 0 = 0 ∧
      SegmentDescriptor.decode (initGdt gdt 1) = ⟨0, 0xFFFFF, 0x9A, 0xA⟩ ∧
      SegmentDescriptor.decode (initGdt gdt 2) = ⟨0, 0xFFFFF, 0x92, 0xC⟩ ∧
      SegmentDescriptor.decode (initGdt gdt 3) = ⟨0, 0xFFFFF, 0xFA, 0xC⟩ ∧
      SegmentDescriptor.decode (initGdt gdt 4) = ⟨0, 0xFFFFF, 0xF2, 0xC⟩ ∧
      SystemDescriptor.decode (initGdt gdt 5, initGdt gdt 6) = ⟨0, 0xFFFFF, 0x89, 0⟩ := by
  have whole : initGdt gdt = initGdt fun _ => 0 := by
    funext index
    fin_cases index <;> rfl
  rw [whole]
  decide

/-- The fields of a present interrupt gate of the kernel. -/
def interruptGate (handler : BitVec 64) : GateDescriptor where
  offset := handler
  selector := kernelCs
  ist := 0
  access := 0x8E
  reserved := 0

/-- The entry that `idt_set_gate` writes. -/
def gateEntry (handler : BitVec 64) : IdtEntry where
  offsetLow := (handler &&& 0xFFFF).setWidth 16
  selector := kernelCs
  ist := 0
  typeAttr := 0x8E
  offsetMid := ((handler >>> 16) &&& 0xFFFF).setWidth 16
  offsetHigh := (handler >>> 32).setWidth 32
  zero := 0

/-- `idt_set_gate` changes one entry. -/
theorem idtSetGate_idt (vector : BitVec 8) (handler : BitVec 64) (state : IdtState) :
    (idtSetGate vector handler state).idt = Function.update state.idt vector (gateEntry handler) :=
  rfl

/-- A gate is the encoding of its fields. -/
theorem gateEntry_encodes (handler : BitVec 64) :
    (gateEntry handler).bits = (interruptGate handler).encode := by
  apply BitVec.eq_of_getLsbD_eq
  intro index inside
  simp only [gateEntry, interruptGate, IdtEntry.bits, GateDescriptor.encode, BitVec.getLsbD_append,
    BitVec.getLsbD_extractLsb', BitVec.getLsbD_and, BitVec.getLsbD_ushiftRight,
    BitVec.getLsbD_setWidth]
  interval_cases index <;> simp

/-- A gate decodes to its fields. -/
theorem gateEntry_decodes (handler : BitVec 64) :
    GateDescriptor.decode (gateEntry handler).bits = interruptGate handler := by
  rw [gateEntry_encodes, GateDescriptor.decode_encode]

/-- An entry keeps every bit of its handler's address. -/
theorem gateEntry_injective : Function.Injective gateEntry := by
  intro first second same
  have decoded : interruptGate first = interruptGate second := by
    rw [← gateEntry_decodes, ← gateEntry_decodes, same]
  exact congrArg GateDescriptor.offset decoded

/-- The gate that was set decodes to what it was made from. -/
theorem idtSetGate_decodes (vector : BitVec 8) (handler : BitVec 64) (state : IdtState) :
    let fields := GateDescriptor.decode ((idtSetGate vector handler state).idt vector).bits
    fields.offset = handler ∧ fields.selector = kernelCs ∧ fields.access = 0x8E := by
  rw [idtSetGate_idt, Function.update_self, gateEntry_decodes]
  exact ⟨rfl, rfl, rfl⟩

/-- The descriptors that the kernel builds decode to what they were built from. -/
theorem descriptors_lossless :
    (∀ (base limit : BitVec 32) (flag : BitVec 16),
      let fields := SegmentDescriptor.decode (createDescriptor base limit flag)
      fields.base = base ∧ fields.limit.toNat = limit.toNat % 2 ^ 20 ∧
        fields.flags ++ 0#4 ++ fields.access = flag &&& 0xF0FF) ∧
    (∀ (gdt : Gdt) (base : BitVec 64) (limit : BitVec 32),
      let after := setTssDescriptor gdt base limit
      let fields := SystemDescriptor.decode (after tssGdtIndex, after (tssGdtIndex + 1))
      fields.base = base ∧ fields.limit.toNat = limit.toNat % 2 ^ 20 ∧ fields.access = 0x89 ∧
        ∀ other, other ≠ tssGdtIndex → other ≠ tssGdtIndex + 1 → after other = gdt other) ∧
    (∀ (vector : BitVec 8) (handler : BitVec 64) (state : IdtState),
      let after := idtSetGate vector handler state
      let fields := GateDescriptor.decode (after.idt vector).bits
      fields.offset = handler ∧ fields.selector = kernelCs ∧ fields.access = 0x8E ∧
        ∀ other, other ≠ vector → after.idt other = state.idt other) := by
  refine ⟨createDescriptor_decodes, fun gdt base limit => ?_, fun vector handler state => ?_⟩
  · obtain ⟨baseSame, limitSame, accessSame⟩ := setTssDescriptor_decodes gdt base limit
    have frame (other : Fin 7) (first : other ≠ tssGdtIndex) (second : other ≠ tssGdtIndex + 1) :
        setTssDescriptor gdt base limit other = gdt other := by
      rw [setTssDescriptor, Function.update_of_ne second, Function.update_of_ne first]
    exact ⟨baseSame, limitSame, accessSame, frame⟩
  · obtain ⟨offset, selector, access⟩ := idtSetGate_decodes vector handler state
    have frame (other : BitVec 8) (different : other ≠ vector) :
        (idtSetGate vector handler state).idt other = state.idt other := by
      rw [idtSetGate_idt, Function.update_of_ne different]
    exact ⟨offset, selector, access, frame⟩

end ArchaOS.Descriptors
