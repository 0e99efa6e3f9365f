import ActiveFsm.Crc

/-!
# ActiveFsm.Remote.Crc16

The CRC-CCITT of the serial transport, from a table or a bit at a time,
whichever `USE_CRC_TABLE` selects.
-/

namespace ActiveFsm

namespace Remote

/-! ## The two implementations -/

def poly : BitVec 16 := 0x1021

/-- `crcccitt_table`. -/
def crcccittTable : List (BitVec 16) :=
  [
    0x0000, 0x1021, 0x2042, 0x3063, 0x4084, 0x50a5, 0x60c6, 0x70e7, 0x8108, 0x9129,
    0xa14a, 0xb16b, 0xc18c, 0xd1ad, 0xe1ce, 0xf1ef, 0x1231, 0x0210, 0x3273, 0x2252,
    0x52b5, 0x4294, 0x72f7, 0x62d6, 0x9339, 0x8318, 0xb37b, 0xa35a, 0xd3bd, 0xc39c,
    0xf3ff, 0xe3de, 0x2462, 0x3443, 0x0420, 0x1401, 0x64e6, 0x74c7, 0x44a4, 0x5485,
    0xa56a, 0xb54b, 0x8528, 0x9509, 0xe5ee, 0xf5cf, 0xc5ac, 0xd58d, 0x3653, 0x2672,
    0x1611, 0x0630, 0x76d7, 0x66f6, 0x5695, 0x46b4, 0xb75b, 0xa77a, 0x9719, 0x8738,
    0xf7df, 0xe7fe, 0xd79d, 0xc7bc, 0x48c4, 0x58e5, 0x6886, 0x78a7, 0x0840, 0x1861,
    0x2802, 0x3823, 0xc9cc, 0xd9ed, 0xe98e, 0xf9af, 0x8948, 0x9969, 0xa90a, 0xb92b,
    0x5af5, 0x4ad4, 0x7ab7, 0x6a96, 0x1a71, 0x0a50, 0x3a33, 0x2a12, 0xdbfd, 0xcbdc,
    0xfbbf, 0xeb9e, 0x9b79, 0x8b58, 0xbb3b, 0xab1a, 0x6ca6, 0x7c87, 0x4ce4, 0x5cc5,
    0x2c22, 0x3c03, 0x0c60, 0x1c41, 0xedae, 0xfd8f, 0xcdec, 0xddcd, 0xad2a, 0xbd0b,
    0x8d68, 0x9d49, 0x7e97, 0x6eb6, 0x5ed5, 0x4ef4, 0x3e13, 0x2e32, 0x1e51, 0x0e70,
    0xff9f, 0xefbe, 0xdfdd, 0xcffc, 0xbf1b, 0xaf3a, 0x9f59, 0x8f78, 0x9188, 0x81a9,
    0xb1ca, 0xa1eb, 0xd10c, 0xc12d, 0xf14e, 0xe16f, 0x1080, 0x00a1, 0x30c2, 0x20e3,
    0x5004, 0x4025, 0x7046, 0x6067, 0x83b9, 0x9398, 0xa3fb, 0xb3da, 0xc33d, 0xd31c,
    0xe37f, 0xf35e, 0x02b1, 0x1290, 0x22f3, 0x32d2, 0x4235, 0x5214, 0x6277, 0x7256,
    0xb5ea, 0xa5cb, 0x95a8, 0x8589, 0xf56e, 0xe54f, 0xd52c, 0xc50d, 0x34e2, 0x24c3,
    0x14a0, 0x0481, 0x7466, 0x6447, 0x5424, 0x4405, 0xa7db, 0xb7fa, 0x8799, 0x97b8,
    0xe75f, 0xf77e, 0xc71d, 0xd73c, 0x26d3, 0x36f2, 0x0691, 0x16b0, 0x6657, 0x7676,
    0x4615, 0x5634, 0xd94c, 0xc96d, 0xf90e, 0xe92f, 0x99c8, 0x89e9, 0xb98a, 0xa9ab,
    0x5844, 0x4865, 0x7806, 0x6827, 0x18c0, 0x08e1, 0x3882, 0x28a3, 0xcb7d, 0xdb5c,
    0xeb3f, 0xfb1e, 0x8bf9, 0x9bd8, 0xabbb, 0xbb9a, 0x4a75, 0x5a54, 0x6a37, 0x7a16,
    0x0af1, 0x1ad0, 0x2ab3, 0x3a92, 0xfd2e, 0xed0f, 0xdd6c, 0xcd4d, 0xbdaa, 0xad8b,
    0x9de8, 0x8dc9, 0x7c26, 0x6c07, 0x5c64, 0x4c45, 0x3ca2, 0x2c83, 0x1ce0, 0x0cc1,
    0xef1f, 0xff3e, 0xcf5d, 0xdf7c, 0xaf9b, 0xbfba, 0x8fd9, 0x9ff8, 0x6e17, 0x7e36,
    0x4e55, 0x5e74, 0x2e93, 0x3eb2, 0x0ed1, 0x1ef0
  ]

/-- A byte, with `USE_CRC_TABLE`. -/
def crcByte (crc : BitVec 16) (b : BitVec 8) : BitVec 16 :=
  (crc <<< 8) ^^^ crcccittTable.getD ((crc >>> 8) ^^^ b.setWidth 16).toNat 0

/-- `Crc16CalcBlock` with `USE_CRC_TABLE`. -/
def crc16CalcBlock (msg : List (BitVec 8)) (crc : BitVec 16) : BitVec 16 := msg.foldl crcByte crc

/-- The body of the inner loop: `crc` and `data`. -/
def crcBit : BitVec 16 × BitVec 16 → BitVec 16 × BitVec 16
  | (crc, data) =>
    (if (data ^^^ crc) &&& 0x8000 ≠ 0 then (crc <<< 1) ^^^ poly else crc <<< 1, data <<< 1)

/-- A byte, without `USE_CRC_TABLE`. -/
def crcByteLoop (crc : BitVec 16) (b : BitVec 8) : BitVec 16 :=
  let data : BitVec 16 := b.setWidth 16 <<< 8
  (Nat.iterate crcBit 8 (crc, data)).1

/-- `Crc16CalcBlock` without `USE_CRC_TABLE`. -/
def crc16CalcBlockLoop (msg : List (BitVec 8)) (crc : BitVec 16) : BitVec 16 :=
  msg.foldl crcByteLoop crc

/-! ## A byte -/

/-- The bits of a byte, the highest first. -/
def byteBits (b : BitVec 8) : List Bool :=
  [b.getMsbD 0, b.getMsbD 1, b.getMsbD 2, b.getMsbD 3, b.getMsbD 4, b.getMsbD 5, b.getMsbD 6,
    b.getMsbD 7]

def toBits (msg : List (BitVec 8)) : List Bool := msg.flatMap byteBits

theorem poly_odd : poly.getLsbD 0 = true := by decide

/-- The test of the top bit. -/
theorem and_ne_zero_iff (x : BitVec 16) : x &&& 0x8000 ≠ 0 ↔ x.msb = true := by
  have htop : (0x8000 : BitVec 16) = BitVec.twoPow 16 15 := by decide
  rw [htop, BitVec.and_twoPow, BitVec.msb_eq_getLsbD_last]
  split
  · next h => simp [h]
  · next h => simpa using h

/-- A top bit is shifted out. -/
theorem top_shiftLeft (b : Bool) : (Crc.top b : BitVec 16) <<< 1 = 0 := by
  cases b <;> decide

/-- A word that is a top bit only. -/
theorem msb_top (b : Bool) : (Crc.top b : BitVec 16).msb = b := by
  cases b <;> decide

/-- One turn of the inner loop feeds one bit. -/
theorem crcBit_eq (crc data : BitVec 16) :
    crcBit (crc, data) = (Crc.feed poly crc data.msb, data <<< 1) := by
  have hmsb : (data ^^^ crc) &&& 0x8000 ≠ 0 ↔ (crc ^^^ Crc.top data.msb).msb = true := by
    rw [and_ne_zero_iff, BitVec.msb_xor, BitVec.msb_xor, msb_top, Bool.xor_comm]
  have hshift : (crc ^^^ Crc.top data.msb) <<< 1 = crc <<< 1 := by
    rw [BitVec.shiftLeft_xor_distrib, top_shiftLeft]
    exact BitVec.xor_zero
  simp only [crcBit, hmsb, Crc.feed, Crc.shift, hshift]

/-- The inner loop feeds the bits from the top one on. -/
theorem iterate_crcBit (n : Nat) (crc data : BitVec 16) :
    (Nat.iterate crcBit n (crc, data)).1 =
      Crc.bits poly crc ((List.range n).map fun i => (data <<< i).msb) := by
  induction n generalizing crc data with
  | zero => rfl
  | succ n ih =>
      rw [Function.iterate_succ_apply, crcBit_eq, ih, List.range_succ_eq_map]
      simp [BitVec.msb_eq_getMsbD_zero, Function.comp_def]

/-- They are those of the byte. -/
theorem byteBits_eq (b : BitVec 8) :
    byteBits b = (List.range 8).map fun i => (b.setWidth 16 <<< 8 <<< i).msb := by
  revert b
  decide +kernel

/-- A byte in the upper half of a word. -/
theorem word_byteBits (b : BitVec 8) :
    (Crc.word (byteBits b) : BitVec 16) = b.setWidth 16 <<< 8 := by
  revert b
  decide +kernel

/-- Eight shifts of a byte move it up. -/
theorem iterate_shift_low (b : BitVec 8) :
    (Crc.shift poly)^[8] (b.setWidth 16) = b.setWidth 16 <<< 8 := by
  revert b
  decide +kernel

/-- The table holds the remainders of the bytes. -/
theorem iterate_shift_high (b : BitVec 8) :
    (Crc.shift poly)^[8] (b.setWidth 16 <<< 8) = crcccittTable.getD b.toNat 0 := by
  revert b
  decide +kernel

/-- A remainder, with a byte added at the top, by its two halves. -/
theorem xor_byte_eq (crc : BitVec 16) (b : BitVec 8) :
    crc ^^^ b.setWidth 16 <<< 8 =
      ((crc >>> 8).setWidth 8 ^^^ b).setWidth 16 <<< 8 ^^^ (crc.setWidth 8).setWidth 16 := by
  apply BitVec.eq_of_getLsbD_eq
  intro i hi
  by_cases hlow : i < 8
  · simp [hlow, hi]
  · have hsub : i - 8 < 8 := by omega
    have hadd : 8 + (i - 8) = i := by omega
    simp [hlow, hi, hsub, hadd]

/-- A step with the table feeds eight bits. -/
theorem crcByte_eq (crc : BitVec 16) (b : BitVec 8) :
    crcByte crc b = Crc.bits poly crc (byteBits b) := by
  have hindex : ((crc >>> 8) ^^^ b.setWidth 16) = ((crc >>> 8).setWidth 8 ^^^ b).setWidth 16 := by
    apply BitVec.eq_of_getLsbD_eq
    intro i hi
    by_cases hlow : i < 8
    · simp [hlow, hi]
    · have hout : 16 ≤ 8 + i := by omega
      simp [hlow, hi, hout]
  have hlow : (crc.setWidth 8).setWidth 16 <<< 8 = crc <<< 8 := by
    apply BitVec.eq_of_getLsbD_eq
    intro i hi
    have hsub : i - 8 < 8 := by omega
    have hwide : i - 8 < 16 := by omega
    simp only [BitVec.getLsbD_shiftLeft, BitVec.getLsbD_setWidth, hi, hsub, hwide, decide_true,
      Bool.true_and]
  have hnat (x : BitVec 8) : (x.setWidth 16).toNat = x.toNat := by
    rw [BitVec.toNat_setWidth]
    omega
  rw [Crc.bits_eq_xor, Crc.bits_zero poly (by simp [byteBits]), word_byteBits,
    ← Crc.iterate_shift_xor, xor_byte_eq, Crc.iterate_shift_xor]
  change _ = (Crc.shift poly)^[8] _ ^^^ (Crc.shift poly)^[8] _
  rw [iterate_shift_high, iterate_shift_low, hlow, crcByte, hindex, hnat, BitVec.xor_comm]

/-- So does a step without it. -/
theorem crcByteLoop_eq (crc : BitVec 16) (b : BitVec 8) :
    crcByteLoop crc b = Crc.bits poly crc (byteBits b) := by
  rw [byteBits_eq, ← iterate_crcBit, crcByteLoop]

/-! ## A message -/

/-- Bytes that are each taken as their bits are. -/
theorem foldl_eq_bits {step : BitVec 16 → BitVec 8 → BitVec 16}
    (hstep : ∀ crc b, step crc b = Crc.bits poly crc (byteBits b)) (msg : List (BitVec 8))
    (crc : BitVec 16) : msg.foldl step crc = Crc.bits poly crc (toBits msg) := by
  induction msg generalizing crc with
  | nil => rfl
  | cons b msg ih =>
      rw [List.foldl_cons, ih, hstep, toBits, toBits, List.flatMap_cons, Crc.bits_append]

/-- The check of a message is that of its bits. -/
theorem crc16CalcBlock_eq_bits (msg : List (BitVec 8)) (crc : BitVec 16) :
    crc16CalcBlock msg crc = Crc.bits poly crc (toBits msg) :=
  foldl_eq_bits crcByte_eq msg crc

/-- The two implementations agree on every message, whatever the remainder they
start from. -/
theorem crc16_table_eq_loop (msg : List (BitVec 8)) (crc : BitVec 16) :
    crc16CalcBlock msg crc = crc16CalcBlockLoop msg crc := by
  rw [crc16CalcBlock_eq_bits, crc16CalcBlockLoop, foldl_eq_bits crcByteLoop_eq]

example :
    crc16CalcBlock [0x31, 0x32, 0x33, 0x34, 0x35, 0x36, 0x37, 0x38, 0x39] 0xFFFF = 0x29B1 := by
  decide

end Remote

end ActiveFsm
