import Mathlib

/-! The conversions of `hfscommon/Unicode/ConvertUTF.c`. Addresses count from `*sourceStart`, the
byte at each of them is `memory`, and a unit is a number below 0x10000. -/

namespace Rhapsody.Hfs

open List Relation

inductive ConversionResult
  | ok
  | sourceExhausted
  | targetExhausted
  deriving DecidableEq

def primaryChar : List ℕ :=
  [0x41, 0x41, 0x41, 0x41, 0x41, 0x41, 0xC6, 0x43, 0x45, 0x45, 0x45, 0x45, 0x49, 0x49, 0x49, 0x49,
    0xD0, 0x4E, 0x4F, 0x4F, 0x4F, 0x4F, 0x4F, 0xD7, 0xD8, 0x55, 0x55, 0x55, 0x55, 0x59, 0xDE, 0xDF,
    0x61, 0x61, 0x61, 0x61, 0x61, 0x61, 0xE6, 0x63, 0x65, 0x65, 0x65, 0x65, 0x69, 0x69, 0x69, 0x69,
    0xF0, 0x6E, 0x6F, 0x6F, 0x6F, 0x6F, 0x6F, 0xF7, 0xF8, 0x75, 0x75, 0x75, 0x75, 0x79, 0xFE, 0x79]

def combiningChar : List ℕ :=
  [0x00, 0x01, 0x02, 0x03, 0x08, 0x0A, 0xFF, 0x27, 0x00, 0x01, 0x02, 0x08, 0x00, 0x01, 0x02, 0x08,
    0xFF, 0x03, 0x00, 0x01, 0x02, 0x03, 0x08, 0xFF, 0xFF, 0x00, 0x01, 0x02, 0x08, 0x01, 0xFF, 0xFF,
    0x00, 0x01, 0x02, 0x03, 0x08, 0x0A, 0xFF, 0x27, 0x00, 0x01, 0x02, 0x08, 0x00, 0x01, 0x02, 0x08,
    0xFF, 0x03, 0x00, 0x01, 0x02, 0x03, 0x08, 0xFF, 0xFF, 0x00, 0x01, 0x02, 0x08, 0x01, 0xFF, 0x08]

def cjkDecompBitmap : List ℕ :=
  [0x00000000, 0x00000000, 0x000AAAAA, 0xA540DB6C, 0x00000802, 0x000AAAAA, 0xA540DB6C, 0x000009E2]

def isDecomposable (table : List ℕ) (unicodeVal : ℕ) : Bool :=
  (table.getD (unicodeVal / 32) 0).testBit (31 - unicodeVal % 32)

/-- The first character of the decomposed sequence and the combining one, 0 if there is none. -/
def decomposer (srcChar : ℕ) : ℕ × ℕ :=
  if srcChar ≤ 0x00FF ∧ 0x00C0 ≤ srcChar then
    let dstChar := primaryChar.getD (srcChar - 0x00C0) 0
    (dstChar, if dstChar ≤ 0x7A then 0x0300 + combiningChar.getD (srcChar - 0x00C0) 0 else 0)
  else if 0x3000 < srcChar ∧ srcChar < 0x3100 ∧
      isDecomposable cjkDecompBitmap (srcChar - 0x3000) then
    match srcChar with
    | 0x3071 => (0x306F, 0x309A)
    | 0x3074 => (0x3072, 0x309A)
    | 0x3077 => (0x3075, 0x309A)
    | 0x307A => (0x3078, 0x309A)
    | 0x307D => (0x307B, 0x309A)
    | 0x3094 => (0x3046, 0x3099)
    | 0x30D1 => (0x30CF, 0x309A)
    | 0x30D4 => (0x30D2, 0x309A)
    | 0x30D7 => (0x30D5, 0x309A)
    | 0x30DA => (0x30D8, 0x309A)
    | 0x30DD => (0x30DB, 0x309A)
    | 0x30F4 => (0x30A6, 0x3099)
    | 0x30F7 => (0x30EF, 0x3099)
    | 0x30F8 => (0x30F0, 0x3099)
    | 0x30F9 => (0x30F1, 0x3099)
    | 0x30FA => (0x30F2, 0x3099)
    -- the rest have a simple conversion
    | _ => (srcChar - 1, 0x3099)
  else (srcChar, 0)

/-! ## From UTF-8 -/

/-- The table of the number of bytes that follow a first byte. -/
def bytesFromUTF8 (byte : UInt8) : ℕ :=
  if byte.toNat < 0xC0 then 0
  else if byte.toNat < 0xE0 then 1
  else if byte.toNat < 0xF0 then 2
  else if byte.toNat < 0xF8 then 3
  else if byte.toNat < 0xFC then 4
  else 5

def offsetsFromUTF8 : List ℕ :=
  [0x00000000, 0x00003080, 0x000E2080, 0x03C82080, 0xFA082080, 0x82082080]

/-- The `switch` that falls through: `ch += *source++; ch <<= 6` for each extra byte. -/
def gather (memory : ℕ → UInt8) : ℕ → ℕ → ℕ → ℕ
  | 0, source, ch => (ch + (memory source).toNat) % 2 ^ 32
  | extra + 1, source, ch =>
    gather memory extra (source + 1) ((ch + (memory source).toNat) * 64 % 2 ^ 32)

def decodeChar (memory : ℕ → UInt8) (source extraBytesToWrite : ℕ) : ℕ :=
  (gather memory extraBytesToWrite source 0 + 2 ^ 32 -
    offsetsFromUTF8.getD extraBytesToWrite 0) % 2 ^ 32

def writeChar (size : ℕ) (target : List ℕ) (ch : ℕ) : ConversionResult × List ℕ :=
  if size ≤ target.length then (.targetExhausted, target)
  else if ch ≤ 0xFFFF then
    -- HFS doesn't like colons
    let (dstChar, combine) := decomposer (if ch = 0x3A then 0x2F else ch)
    if combine = 0 then (.ok, target ++ [dstChar])
    else if size ≤ target.length + 1 then (.targetExhausted, target ++ [dstChar])
    else (.ok, target ++ [dstChar, combine])
  else if 0x10FFFF < ch then (.ok, target ++ [0xFFFD])
  else if size ≤ target.length + 1 then (.targetExhausted, target)
  else
    (.ok, target ++ [(ch - 0x10000) / 2 ^ 10 + 0xD800, (ch - 0x10000) % 2 ^ 10 + 0xDC00])

structure Conversion where
  result : ConversionResult
  source : ℕ
  target : List ℕ
  /-- The addresses of the bytes read. -/
  reads : List ℕ
  deriving DecidableEq

/-- The loop; `none` is only returned when the fuel runs out. -/
def convertLoop (memory : ℕ → UInt8) (sourceEnd size : ℕ) :
    ℕ → ℕ → List ℕ → List ℕ → Option Conversion
  | 0, _, _, _ => none
  | fuel + 1, source, target, reads =>
    if source < sourceEnd then
      let extraBytesToWrite := bytesFromUTF8 (memory source)
      if sourceEnd < source + extraBytesToWrite then
        some ⟨.sourceExhausted, source, target, reads ++ [source]⟩
      else
        let reads := reads ++ range' source (extraBytesToWrite + 1)
        match writeChar size target (decodeChar memory source extraBytesToWrite) with
        | (.ok, target) =>
          convertLoop memory sourceEnd size fuel (source + extraBytesToWrite + 1) target reads
        | (result, target) => some ⟨result, source + extraBytesToWrite + 1, target, reads⟩
    else some ⟨.ok, source, target, reads⟩

def convertUTF8toUTF16 (memory : ℕ → UInt8) (sourceEnd size : ℕ) : Option Conversion :=
  convertLoop memory sourceEnd size (sourceEnd + 1) 0 [] []

/-! ## Staying within the buffers -/

variable {memory : ℕ → UInt8} {sourceEnd size : ℕ}

def charUnits (ch : ℕ) : List ℕ :=
  if ch ≤ 0xFFFF then
    let (dstChar, combine) := decomposer (if ch = 0x3A then 0x2F else ch)
    if combine = 0 then [dstChar] else [dstChar, combine]
  else if 0x10FFFF < ch then [0xFFFD]
  else [(ch - 0x10000) / 2 ^ 10 + 0xD800, (ch - 0x10000) % 2 ^ 10 + 0xDC00]

lemma charUnits_length (ch : ℕ) : (charUnits ch).length = 1 ∨ (charUnits ch).length = 2 := by
  rw [charUnits]
  obtain ⟨dstChar, combine⟩ := decomposer _
  dsimp only
  split_ifs <;> simp

theorem writeChar_cases (size : ℕ) (target : List ℕ) (ch : ℕ) :
    (writeChar size target ch = (.ok, target ++ charUnits ch) ∧
      target.length + (charUnits ch).length ≤ size) ∨
    ∃ target', writeChar size target ch = (.targetExhausted, target') ∧
      size < target.length + (charUnits ch).length ∧ target'.length ≤ max size target.length := by
  have hlength := charUnits_length ch
  rw [writeChar]
  split
  · exact .inr ⟨target, rfl, by omega, le_max_right ..⟩
  rw [charUnits]
  obtain ⟨dstChar, combine⟩ := decomposer _
  dsimp only
  split_ifs <;> simp <;> omega

/-- A character starts at `b` when the one before it, at `a`, has all its bytes. -/
def CharFollows (memory : ℕ → UInt8) (sourceEnd a b : ℕ) : Prop :=
  a + bytesFromUTF8 (memory a) < sourceEnd ∧ b = a + bytesFromUTF8 (memory a) + 1

/-- A character that starts at `i` lacks `k` of its bytes. -/
def Lacks (memory : ℕ → UInt8) (sourceEnd source k : ℕ) : Prop :=
  ∃ i < sourceEnd, ReflTransGen (CharFollows memory sourceEnd) source i ∧
    i + bytesFromUTF8 (memory i) + 1 = sourceEnd + k

/-- The units of the characters from `source` on that have all their bytes. -/
def wholeChars (memory : ℕ → UInt8) (sourceEnd : ℕ) : ℕ → ℕ → List ℕ
  | 0, _ => []
  | fuel + 1, source =>
    let extra := bytesFromUTF8 (memory source)
    if source + extra < sourceEnd then
      charUnits (decodeChar memory source extra) ++
        wholeChars memory sourceEnd fuel (source + extra + 1)
    else []

/-- Nothing is read or written outside the buffers, and a character that is not whole is reported
if there is room for all before it. -/
structure Within (memory : ℕ → UInt8) (sourceEnd size start units : ℕ) (r : Conversion) : Prop where
  reads : ∀ a ∈ r.reads, a < sourceEnd
  target : r.target.length ≤ size
  source : r.source ≤ sourceEnd
  result : ∀ k, Lacks memory sourceEnd start (k + 1) → r.result =
    if units ≤ size then .sourceExhausted else .targetExhausted

lemma not_lacks {source k : ℕ} (h : sourceEnd ≤ source) : ¬Lacks memory sourceEnd source k := by
  rintro ⟨i, hi, hreach, -⟩
  obtain rfl | ⟨c, ⟨hc, -⟩, -⟩ := hreach.cases_head <;> omega

/-- The character at `source` itself lacks a byte if it does not fit. -/
lemma lacks_iff {source k : ℕ} (hlt : source < sourceEnd)
    (hle : sourceEnd ≤ source + bytesFromUTF8 (memory source)) :
    Lacks memory sourceEnd source k ↔
      source + bytesFromUTF8 (memory source) + 1 = sourceEnd + k := by
  refine ⟨fun ⟨i, hi, hreach, heq⟩ => ?_, fun heq => ⟨source, hlt, .refl, heq⟩⟩
  obtain rfl | ⟨c, ⟨hc, -⟩, -⟩ := hreach.cases_head
  · exact heq
  · omega

lemma lacks_next {source k : ℕ} (hlt : source + bytesFromUTF8 (memory source) < sourceEnd) :
    Lacks memory sourceEnd source (k + 1) ↔
      Lacks memory sourceEnd (source + bytesFromUTF8 (memory source) + 1) (k + 1) := by
  constructor
  · rintro ⟨i, hi, hreach, heq⟩
    obtain rfl | ⟨c, ⟨-, rfl⟩, hreach⟩ := hreach.cases_head
    · omega
    · exact ⟨i, hi, hreach, heq⟩
  · rintro ⟨i, hi, hreach, heq⟩
    exact ⟨i, hi, .head ⟨hlt, rfl⟩ hreach, heq⟩

lemma convertLoop_end {fuel source : ℕ} (hfuel : 0 < fuel) (hsource : sourceEnd ≤ source)
    (target reads : List ℕ) : convertLoop memory sourceEnd size fuel source target reads =
      some ⟨.ok, source, target, reads⟩ := by
  obtain ⟨fuel, rfl⟩ := Nat.exists_eq_add_one.2 hfuel
  rw [convertLoop, if_neg (not_lt.2 hsource)]

lemma convertLoop_spec {fuel source : ℕ} {target reads : List ℕ}
    (hfuel : sourceEnd < source + fuel) (hsource : source ≤ sourceEnd)
    (htarget : target.length ≤ size) (hreads : ∀ a ∈ reads, a < sourceEnd) :
    let units := target.length + (wholeChars memory sourceEnd fuel source).length
    ∃ r, convertLoop memory sourceEnd size fuel source target reads = some r ∧
      (units ≤ size ∧ Lacks memory sourceEnd source 1 → sourceEnd ∈ r.reads) ∧
      (¬(units ≤ size ∧ Lacks memory sourceEnd source 1) →
        Within memory sourceEnd size source units r) := by
  induction fuel generalizing source target reads with
  | zero => omega
  | succ fuel ih =>
    rcases hsource.eq_or_lt with rfl | hlt
    · have hnot {k : ℕ} : ¬Lacks memory source source k := not_lacks le_rfl
      exact ⟨_, convertLoop_end (by omega) le_rfl _ _, fun h => absurd h.2 hnot,
        fun _ => ⟨hreads, htarget, le_rfl, fun k hk => absurd hk hnot⟩⟩
    rw [convertLoop, if_pos hlt, wholeChars]
    dsimp only
    rcases lt_trichotomy (source + bytesFromUTF8 (memory source)) sourceEnd with hin | heq | hout
    -- the character is whole
    · rw [if_neg (by omega), if_pos hin, length_append, ← Nat.add_assoc]
      have hreads' : ∀ a ∈ reads ++ range' source (bytesFromUTF8 (memory source) + 1),
          a < sourceEnd := by
        intro a ha
        obtain ha | ha := mem_append.1 ha
        · exact hreads a ha
        · have := mem_range'_1.1 ha
          omega
      obtain ⟨hwrite, hroom⟩ | ⟨target', hwrite, hroom, hlen⟩ :=
        writeChar_cases size target (decodeChar memory source (bytesFromUTF8 (memory source)))
      · rw [hwrite]
        rw [← length_append] at hroom ⊢
        obtain ⟨r, hr, hpast, hwithin⟩ := ih (show sourceEnd < _ + fuel by omega) hin hroom hreads'
        refine ⟨r, hr, fun h => hpast ⟨h.1, (lacks_next hin).1 h.2⟩, fun h => ?_⟩
        obtain ⟨hreads, htarget, hsource, hresult⟩ :=
          hwithin fun hlacks => h ⟨hlacks.1, (lacks_next hin).2 hlacks.2⟩
        exact ⟨hreads, htarget, hsource, fun k hk => hresult k ((lacks_next hin).1 hk)⟩
      · rw [hwrite]
        refine ⟨_, rfl, fun h => by omega, fun _ => ⟨hreads', ?_, hin, fun k _ => ?_⟩⟩
        · exact hlen.trans (max_le le_rfl htarget)
        · rw [if_neg (by omega)]
    -- its last byte alone is missing
    · rw [if_neg (by omega), if_neg (by omega)]
      have hlacks : Lacks memory sourceEnd source 1 :=
        (lacks_iff hlt heq.ge).2 (congrArg (· + 1) heq)
      have hpast : sourceEnd ∈ reads ++ range' source (bytesFromUTF8 (memory source) + 1) :=
        mem_append_right _ (mem_range'_1.2 (by omega))
      split
      · rw [convertLoop_end (by omega) (by omega)]
        exact ⟨_, rfl, fun _ => hpast, fun h => absurd ⟨htarget, hlacks⟩ h⟩
      · exact ⟨_, rfl, fun _ => hpast, fun h => absurd ⟨htarget, hlacks⟩ h⟩
    -- more are missing
    · rw [if_pos (by omega), if_neg (by omega)]
      refine ⟨_, rfl, fun h => ?_, fun _ => ⟨fun a ha => ?_, htarget, hlt.le, fun k _ => ?_⟩⟩
      · have := (lacks_iff hlt hout.le).1 h.2
        omega
      · obtain ha | ha := mem_append.1 ha
        · exact hreads a ha
        · exact (mem_singleton.1 ha).trans_lt hlt
      · exact (if_pos htarget).symm

/-- A character whose last byte alone is missing passes the test for the end, if the target has room
for all before it. -/
theorem convertUTF8toUTF16_within (memory : ℕ → UInt8) (sourceEnd size : ℕ) :
    let units := (wholeChars memory sourceEnd (sourceEnd + 1) 0).length
    (∃ r, convertUTF8toUTF16 memory sourceEnd size = some r ∧
      Within memory sourceEnd size 0 units r) ↔
    ¬(units ≤ size ∧ Lacks memory sourceEnd 0 1) := by
  intro units
  obtain ⟨r, hr, hpast, hwithin⟩ := @convertLoop_spec memory sourceEnd size (sourceEnd + 1) 0 [] []
    (by omega) (Nat.zero_le _) (Nat.zero_le _) nofun
  rw [length_nil, Nat.zero_add] at hpast hwithin
  refine ⟨fun ⟨r', hr', hwithin'⟩ hlacks => ?_, fun h => ⟨r, hr, hwithin h⟩⟩
  cases hr.symm.trans hr'
  exact lt_irrefl _ (hwithin'.reads sourceEnd (hpast hlacks))

/-- A character that lacks two of its bytes is seen after one that is decomposed. -/
theorem convertUTF8toUTF16_within_two : ∃ r,
    convertUTF8toUTF16 (fun a => [0xC3, 0x80, 0xE3].getD a 0) 3 4 = some r ∧
      r.result = .sourceExhausted := by
  have hwhole : ¬Lacks (fun a => [0xC3, 0x80, 0xE3].getD a 0) 3 0 1 := by
    rintro ⟨i, hi, -, heq⟩
    interval_cases i <;> exact absurd heq (by decide)
  obtain ⟨r, hr, hwithin⟩ := (convertUTF8toUTF16_within _ 3 4).2 fun h => hwhole h.2
  exact ⟨r, hr, hwithin.result 1 ⟨2, by decide, .single ⟨by decide, by decide⟩, by decide⟩⟩

/-- The byte at `sourceEnd` is read and `*sourceStart` is left after it. -/
theorem convertUTF8toUTF16_past_end :
    convertUTF8toUTF16 (fun _ => 0xC2) 1 4 = some ⟨.ok, 2, [0x41, 0x302], [0, 1]⟩ := by
  decide +kernel

end Rhapsody.Hfs
