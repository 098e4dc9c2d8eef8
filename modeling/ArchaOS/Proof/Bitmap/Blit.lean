import ArchaOS.Construction.Bitmap
import ArchaOS.Library.PointLoop

namespace ArchaOS.Bitmap

open Library

/-- The image as a picture: rows are stored from the bottom up, each filled up to a multiple of four
bytes, and a pixel is blue, green and red. -/
def pictureColor (bmp : Memory) (column row : Nat) : BitVec 32 :=
  let rowBytes := (3 * (infoWidth bmp).toNat + 3) / 4 * 4
  let start := offset bmp + ((infoHeight bmp).toNat - 1 - row) * rowBytes + 3 * column
  0#8 ++ (bmp.byte (start + 2)).toBitVec ++ (bmp.byte (start + 1)).toBitVec ++ (bmp.byte start).toBitVec

/-- A 24-bit image that the function draws without a wrap in its arithmetic. -/
structure Drawable (place : Placement) (bmp : Memory) : Prop where
  signature : type bmp = 0x4D42
  depth : bpp bmp = 24
  width : 0 < infoWidth bmp
  height : 0 < infoHeight bmp
  scale : 0 < place.scale
  pitch : place.fbWidth ≤ place.pitch
  right : place.posX + (infoWidth bmp).toNat * place.scale < 2 ^ 64
  bottom : place.posY + (infoHeight bmp).toNat * place.scale < 2 ^ 64
  words : ∀ x < place.fbWidth, ∀ y < place.fbHeight, y * place.pitch + x < 2 ^ 64

/-- The point lies in the enlarged image. -/
structure Covers (place : Placement) (bmp : Memory) (x y : Nat) : Prop where
  left : place.posX ≤ x
  top : place.posY ≤ y
  column : (x - place.posX) / place.scale < (infoWidth bmp).toNat
  row : (y - place.posY) / place.scale < (infoHeight bmp).toNat

/-- The visible words under the image get its colours, and every other word is unchanged. -/
structure Blits (place : Placement) (bmp : Memory) (before after : Framebuffer) : Prop where
  drawn : ∀ x < place.fbWidth, ∀ y < place.fbHeight, Covers place bmp x y →
    after (y * place.pitch + x) =
      pictureColor bmp ((x - place.posX) / place.scale) ((y - place.posY) / place.scale)
  other : ∀ index,
    (∀ x < place.fbWidth, ∀ y < place.fbHeight, Covers place bmp x y → index ≠ y * place.pitch + x) →
    after index = before index

/-- The size fields of an image are not negative. -/
theorem int32_lt {bmp : Memory} {position : Nat} : (int32 bmp position).toNat < 2 ^ 31 := by
  have upper := BitVec.toInt_lt (x := BitVec.ofNat 32 (bmp.read position 4))
  unfold int32
  omega

/-- The shifts of `color` put the three channels side by side. -/
theorem color_append (red green blue : BitVec 8) :
    (red.setWidth 32 <<< 16) ||| (green.setWidth 32 <<< 8) ||| blue.setWidth 32 =
      0#8 ++ red ++ green ++ blue := by
  apply BitVec.eq_of_getLsbD_eq
  intro index inside
  simp only [BitVec.getLsbD_or, BitVec.getLsbD_shiftLeft, BitVec.getLsbD_setWidth, BitVec.getLsbD_append]
  interval_cases index <;> simp

/-- The rows of an image are padded to a multiple of four bytes. -/
theorem rowSize_eq {width : Nat} (narrow : width < 2 ^ 31) :
    add64 (mul64 width 3) 3 &&& (2 ^ 64 - 1 - 3) = (3 * width + 3) / 4 * 4 := by
  have bytes : add64 (mul64 width 3) 3 = 3 * width + 3 := by
    rw [mul64_eq (by omega), add64_eq (by omega), Nat.mul_comm]
  have mask : 2 ^ 64 - 1 - 3 = (2 ^ 62 - 1) <<< 2 := by decide
  rw [bytes, mask, and_mask]
  omega

/-- The sums of the function do not wrap. -/
theorem steps64_eq {start count size rest : Nat} (fits : start + count * size + rest < 2 ^ 64) :
    add64 (add64 start (mul64 count size)) rest = start + count * size + rest := by
  have product : mul64 count size = count * size := mul64_eq (by omega)
  have sum : add64 start (count * size) = start + count * size := add64_eq (by omega)
  rw [product, sum, add64_eq fits]

/-- The address that the function computes for a pixel. -/
theorem pixelColor_eq {bmp : Memory} {x y : Nat} (column : x < (infoWidth bmp).toNat)
    (row : y < (infoHeight bmp).toNat) :
    pixelColor bmp (add64 (add64 (offset bmp)
        (mul64 (sub64 (sub64 (infoHeight bmp).toNat 1) y)
          (add64 (mul64 (infoWidth bmp).toNat 3) 3 &&& (2 ^ 64 - 1 - 3)))) (mul64 x 3)) =
      pictureColor bmp x y := by
  have width : (infoWidth bmp).toNat < 2 ^ 31 := int32_lt
  have height : (infoHeight bmp).toNat < 2 ^ 31 := int32_lt
  have start : offset bmp < 256 ^ 4 := Memory.read_lt bmp 10 4
  have last : sub64 (infoHeight bmp).toNat 1 = (infoHeight bmp).toNat - 1 :=
    sub64_eq (by omega) (by omega)
  have below : sub64 ((infoHeight bmp).toNat - 1) y = (infoHeight bmp).toNat - 1 - y :=
    sub64_eq (by omega) (by omega)
  have rows : ((infoHeight bmp).toNat - 1 - y) * ((3 * (infoWidth bmp).toNat + 3) / 4 * 4) ≤
      2 ^ 31 * (3 * 2 ^ 31) :=
    Nat.mul_le_mul (by omega) (by omega)
  have across : mul64 x 3 = 3 * x := by
    rw [mul64_eq (by omega), Nat.mul_comm]
  rw [rowSize_eq width, last, below, across, steps64_eq (by omega), pixelColor, add64_eq (by omega),
    add64_eq (by omega), color_append]
  rfl

section Loops

variable {place : Placement} {bmp : Memory} (drawable : Drawable place bmp)

/-- The word that a turn of the innermost loop writes, if it writes one. -/
structure Hits (place : Placement) (index x y sx sy : Nat) : Prop where
  right : place.posX + x * place.scale + sx < place.fbWidth
  bottom : place.posY + y * place.scale + sy < place.fbHeight
  word : (place.posY + y * place.scale + sy) * place.pitch + (place.posX + x * place.scale + sx) = index

/-- A step within the last block stays below the end of the image. -/
theorem block_lt {count i scale step : Nat} (inside : i < count) (within : step < scale) :
    i * scale + step < count * scale := by
  have next : (i + 1) * scale ≤ count * scale := Nat.mul_le_mul_right scale inside
  rw [Nat.add_mul, Nat.one_mul] at next
  omega

include drawable in
/-- The innermost body without the wraps of its arithmetic. -/
theorem drawWord_eq {x y sx sy : Nat} (column : x < (infoWidth bmp).toNat)
    (row : y < (infoHeight bmp).toNat) (acrossBlock : sx < place.scale) (downBlock : sy < place.scale)
    (color : BitVec 32) :
    drawWord place x y sx sy color = fun fb =>
      if place.posX + x * place.scale + sx < place.fbWidth ∧
          place.posY + y * place.scale + sy < place.fbHeight then
        Function.update fb
          ((place.posY + y * place.scale + sy) * place.pitch + (place.posX + x * place.scale + sx)) color
      else fb := by
  have right := drawable.right
  have bottom := drawable.bottom
  have acrossImage := block_lt column acrossBlock
  have downImage := block_lt row downBlock
  have drawX : add64 (add64 place.posX (mul64 x place.scale)) sx = place.posX + x * place.scale + sx :=
    steps64_eq (by omega)
  have drawY : add64 (add64 place.posY (mul64 y place.scale)) sy = place.posY + y * place.scale + sy :=
    steps64_eq (by omega)
  funext fb
  rw [drawWord, drawX, drawY]
  apply ite_congr rfl
  · intro visible
    have fits := drawable.words _ visible.1 _ visible.2
    rw [mul64_eq (Nat.lt_of_le_of_lt (Nat.le_add_right _ _) fits), add64_eq fits]
  · intro _
    rfl

include drawable in
/-- One turn of the innermost loop sets the pixel that it hits. -/
theorem drawWord_sets {x y sx sy : Nat} (column : x < (infoWidth bmp).toNat)
    (row : y < (infoHeight bmp).toNat) (acrossBlock : sx < place.scale) (downBlock : sy < place.scale)
    {index : Nat} {color value : BitVec 32} (same : Hits place index x y sx sy → color = value) :
    SetsWhen index value (Hits place index x y sx sy) (drawWord place x y sx sy color) := by
  rw [drawWord_eq drawable column row acrossBlock downBlock]
  have body (visible : place.posX + x * place.scale + sx < place.fbWidth ∧
      place.posY + y * place.scale + sy < place.fbHeight) :=
    setsWhen_update fun word => same ⟨visible.1, visible.2, word⟩
  apply (SetsWhen.ite body).congr
  constructor
  · intro hits
    exact ⟨⟨hits.right, hits.bottom⟩, hits.word⟩
  · intro ⟨visible, written⟩
    exact ⟨visible.1, visible.2, written⟩

/-- A turn of the four loops hits the word. -/
def Reached (place : Placement) (bmp : Memory) (index : Nat) : Prop :=
  ∃ y < (infoHeight bmp).toNat, ∃ x < (infoWidth bmp).toNat, ∃ sy < place.scale, ∃ sx < place.scale,
    Hits place index x y sx sy

include drawable in
/-- The loops set the pixels that they hit, each to the color of the picture. -/
theorem drawBmp_sets {index : Nat} {value : BitVec 32}
    (same : ∀ x y sx sy, x < (infoWidth bmp).toNat → y < (infoHeight bmp).toNat →
      sx < place.scale → sy < place.scale → Hits place index x y sx sy → pictureColor bmp x y = value) :
    SetsWhen index value (Reached place bmp index) (drawBmp place bmp) := by
  have turn : drawBmp place bmp = fun fb =>
      (List.range (infoHeight bmp).toNat).foldl (fun fb y =>
        (List.range (infoWidth bmp).toNat).foldl (fun fb x =>
          drawPixel place x y (pixelColor bmp (add64 (add64 (offset bmp)
            (mul64 (sub64 (sub64 (infoHeight bmp).toNat 1) y)
              (add64 (mul64 (infoWidth bmp).toNat 3) 3 &&& (2 ^ 64 - 1 - 3)))) (mul64 x 3))) fb) fb) fb := by
    funext fb
    have type : ¬ type bmp ≠ 0x4D42 := not_not.mpr drawable.signature
    have depth : ¬ bpp bmp ≠ 24 := not_not.mpr drawable.depth
    have sizes : ¬ (infoWidth bmp ≤ 0 ∨ infoHeight bmp ≤ 0 ∨ place.scale = 0) := by
      have width := drawable.width
      have height := drawable.height
      have scale := drawable.scale
      omega
    rw [drawBmp, if_neg type, if_neg depth, if_neg sizes]
  rw [turn]
  apply SetsWhen.count
  intro y row
  apply SetsWhen.count
  intro x column
  rw [pixelColor_eq column row]
  apply SetsWhen.count
  intro sy downBlock
  apply SetsWhen.count
  intro sx acrossBlock
  exact drawWord_sets drawable column row acrossBlock downBlock
    fun hits => same x y sx sy column row acrossBlock downBlock hits

end Loops

/-- Two visible points have different words, as a row is as long as the pitch at least. -/
theorem word_injective {pitch x y x' y' : Nat} (inside : x < pitch) (inside' : x' < pitch)
    (same : y * pitch + x = y' * pitch + x') : x = x' ∧ y = y' := by
  have rows : y = y' := by
    have row := congrArg (· / pitch) same
    simpa only [Nat.mul_comm _ pitch, Nat.mul_add_div (Nat.zero_lt_of_lt inside),
      Nat.div_eq_of_lt inside, Nat.div_eq_of_lt inside', Nat.add_zero] using row
  subst rows
  exact ⟨Nat.add_left_cancel same, rfl⟩

/-- A point of a block belongs to the pixel that the block enlarges. -/
theorem block_div {start i scale step : Nat} (within : step < scale) :
    (start + i * scale + step - start) / scale = i := by
  have shift : start + i * scale + step - start = scale * i + step := by
    rw [Nat.mul_comm i]
    omega
  rw [shift, Nat.mul_add_div (Nat.zero_lt_of_lt within), Nat.div_eq_of_lt within, Nat.add_zero]

/-- The point that a turn draws lies in the enlarged image. -/
theorem covers_block {place : Placement} {bmp : Memory} {x y sx sy : Nat}
    (column : x < (infoWidth bmp).toNat) (row : y < (infoHeight bmp).toNat)
    (acrossBlock : sx < place.scale) (downBlock : sy < place.scale) :
    Covers place bmp (place.posX + x * place.scale + sx) (place.posY + y * place.scale + sy) where
  left := by omega
  top := by omega
  column := by rwa [block_div acrossBlock]
  row := by rwa [block_div downBlock]

/-- Every visible point under the image is hit by a turn for its column and its row. -/
theorem Covers.reached {place : Placement} {bmp : Memory} (drawable : Drawable place bmp) {x y : Nat}
    (covers : Covers place bmp x y) (right : x < place.fbWidth) (bottom : y < place.fbHeight) :
    Reached place bmp (y * place.pitch + x) := by
  have left := covers.left
  have top := covers.top
  have across := Nat.div_add_mod' (x - place.posX) place.scale
  have down := Nat.div_add_mod' (y - place.posY) place.scale
  have drawX : place.posX + (x - place.posX) / place.scale * place.scale +
      (x - place.posX) % place.scale = x := by
    omega
  have drawY : place.posY + (y - place.posY) / place.scale * place.scale +
      (y - place.posY) % place.scale = y := by
    omega
  have hits : Hits place (y * place.pitch + x) ((x - place.posX) / place.scale)
      ((y - place.posY) / place.scale) ((x - place.posX) % place.scale)
      ((y - place.posY) % place.scale) := by
    constructor
    · rwa [drawX]
    · rwa [drawY]
    · rw [drawX, drawY]
  exact ⟨_, covers.row, _, covers.column, _, Nat.mod_lt _ drawable.scale, _,
    Nat.mod_lt _ drawable.scale, hits⟩

/-- `DrawBMP` is an exact enlarged copy of the image. -/
theorem drawBmp_blits {place : Placement} {bmp : Memory} (drawable : Drawable place bmp)
    (fb : Framebuffer) : Blits place bmp fb (drawBmp place bmp fb) := by
  constructor
  · intro x right y bottom covers
    have reached := covers.reached drawable right bottom
    apply (drawBmp_sets drawable ?_).sets reached
    intro column row sx sy columnInside rowInside acrossBlock downBlock hits
    have wide := drawable.pitch
    obtain ⟨rfl, rfl⟩ := word_injective (Nat.lt_of_lt_of_le hits.right wide)
      (Nat.lt_of_lt_of_le right wide) hits.word
    rw [block_div acrossBlock, block_div downBlock]
  · intro index elsewhere
    have missed : ¬ Reached place bmp index := by
      rintro ⟨y, row, x, column, sy, downBlock, sx, acrossBlock, hits⟩
      exact elsewhere _ hits.right _ hits.bottom (covers_block column row acrossBlock downBlock)
        hits.word.symm
    have sets : SetsWhen index (fb index) (Reached place bmp index) (drawBmp place bmp) := by
      apply drawBmp_sets drawable
      intro x y sx sy column row acrossBlock downBlock hits
      exact absurd ⟨y, row, x, column, sy, downBlock, sx, acrossBlock, hits⟩ missed
    exact sets.keeps missed fb

/-- An image of one column and two rows, red above blue. -/
def flag : Memory where
  byte address :=
    if address = 0 then 0x42 else if address = 1 then 0x4D else if address = 10 then 54
    else if address = 18 then 1 else if address = 22 then 2 else if address = 28 then 24
    else if address = 54 ∨ address = 60 then 0xFF else 0

/-- A flag of two rows is drawn twice as large. -/
theorem drawBmp_blits_flag :
    Blits ⟨4, 3, 5, 1, 1, 2⟩ flag (fun _ => 7) (drawBmp ⟨4, 3, 5, 1, 1, 2⟩ flag fun _ => 7) := by
  have drawable : Drawable ⟨4, 3, 5, 1, 1, 2⟩ flag :=
    { signature := by decide
      depth := by decide
      width := by decide
      height := by decide
      scale := by decide
      pitch := by decide
      right := by decide
      bottom := by decide
      words := by decide }
  exact drawBmp_blits drawable fun _ => 7

end ArchaOS.Bitmap
