import Mathlib.Tactic

namespace ArchaOS.Library

/-- The fields of a segment descriptor: the access byte and the flags surround the limit. -/
@[ext] structure SegmentDescriptor where
  base : BitVec 32
  limit : BitVec 20
  access : BitVec 8
  flags : BitVec 4
  deriving DecidableEq, Repr

namespace SegmentDescriptor

/-- The word that an x86 processor reads as a descriptor with these fields. -/
def encode (fields : SegmentDescriptor) : BitVec 64 :=
  fields.base.extractLsb' 24 8 ++ fields.flags ++ fields.limit.extractLsb' 16 4 ++ fields.access ++
    fields.base.extractLsb' 16 8 ++ fields.base.extractLsb' 0 16 ++ fields.limit.extractLsb' 0 16

def decode (word : BitVec 64) : SegmentDescriptor where
  base := word.extractLsb' 56 8 ++ word.extractLsb' 32 8 ++ word.extractLsb' 16 16
  limit := word.extractLsb' 48 4 ++ word.extractLsb' 0 16
  access := word.extractLsb' 40 8
  flags := word.extractLsb' 52 4

/-- A segment descriptor decodes to its fields. -/
theorem decode_encode (fields : SegmentDescriptor) : decode (encode fields) = fields := by
  apply SegmentDescriptor.ext
  all_goals
    apply BitVec.eq_of_getLsbD_eq
    intro index inside
    simp only [encode, decode, BitVec.getLsbD_append, BitVec.getLsbD_extractLsb']
    interval_cases index <;> simp

end SegmentDescriptor

/-- The fields of a system descriptor, which takes two words. -/
@[ext] structure SystemDescriptor where
  base : BitVec 64
  limit : BitVec 20
  access : BitVec 8
  flags : BitVec 4
  deriving DecidableEq, Repr

namespace SystemDescriptor

def encode (fields : SystemDescriptor) : BitVec 64 × BitVec 64 :=
  (SegmentDescriptor.encode ⟨fields.base.setWidth 32, fields.limit, fields.access, fields.flags⟩,
    (fields.base.extractLsb' 32 32).setWidth 64)

def decode (words : BitVec 64 × BitVec 64) : SystemDescriptor where
  base := words.2.setWidth 32 ++ (SegmentDescriptor.decode words.1).base
  limit := (SegmentDescriptor.decode words.1).limit
  access := (SegmentDescriptor.decode words.1).access
  flags := (SegmentDescriptor.decode words.1).flags

/-- A system descriptor decodes to its fields. -/
theorem decode_encode (fields : SystemDescriptor) : decode (encode fields) = fields := by
  simp only [decode, encode, SegmentDescriptor.decode_encode]
  apply SystemDescriptor.ext
  · apply BitVec.eq_of_getLsbD_eq
    intro index inside
    simp only [BitVec.getLsbD_append, BitVec.getLsbD_extractLsb', BitVec.getLsbD_setWidth]
    interval_cases index <;> simp
  all_goals rfl

end SystemDescriptor

/-- The fields of a gate descriptor. -/
@[ext] structure GateDescriptor where
  offset : BitVec 64
  selector : BitVec 16
  ist : BitVec 8
  access : BitVec 8
  reserved : BitVec 32
  deriving DecidableEq, Repr

namespace GateDescriptor

def encode (fields : GateDescriptor) : BitVec 128 :=
  fields.reserved ++ fields.offset.extractLsb' 32 32 ++ fields.offset.extractLsb' 16 16 ++
    fields.access ++ fields.ist ++ fields.selector ++ fields.offset.extractLsb' 0 16

def decode (words : BitVec 128) : GateDescriptor where
  offset := words.extractLsb' 64 32 ++ words.extractLsb' 48 16 ++ words.extractLsb' 0 16
  selector := words.extractLsb' 16 16
  ist := words.extractLsb' 32 8
  access := words.extractLsb' 40 8
  reserved := words.extractLsb' 96 32

/-- A gate descriptor decodes to its fields. -/
theorem decode_encode (fields : GateDescriptor) : decode (encode fields) = fields := by
  apply GateDescriptor.ext
  all_goals
    apply BitVec.eq_of_getLsbD_eq
    intro index inside
    simp only [encode, decode, BitVec.getLsbD_append, BitVec.getLsbD_extractLsb']
    interval_cases index <;> simp

end GateDescriptor

end ArchaOS.Library
