import Mathlib.Tactic.Common
import WeatherStation.Foundation.Memory
import WeatherStation.Foundation.Sextets

/-!
# The Wi-Fi configuration as text

For an environment that stores strings only, {lit}`wifi_config.c` has its own Base64 code:
three bytes are four characters of a table of 64, a rest of one or two bytes is padded, and
the decoder looks characters up in a table of 256 and counts the padding at the end.

Main results:

- Theorem {lit}`sextet_base64Char`: the decoding table inverts the encoding table.
- Theorem {lit}`base64_lossless`: the text of a configuration fits the allocated buffer and is
  decoded to the configuration.
-/

open Foundation

namespace WeatherStation

namespace Base64

/-! ## Tables -/

/-- {lit}`base64_table` -/
def base64Table : List UInt8 :=
  (['A', 'B', 'C', 'D', 'E', 'F', 'G', 'H', 'I', 'J', 'K', 'L', 'M',
    'N', 'O', 'P', 'Q', 'R', 'S', 'T', 'U', 'V', 'W', 'X', 'Y', 'Z',
    'a', 'b', 'c', 'd', 'e', 'f', 'g', 'h', 'i', 'j', 'k', 'l', 'm',
    'n', 'o', 'p', 'q', 'r', 's', 't', 'u', 'v', 'w', 'x', 'y', 'z',
    '0', '1', '2', '3', '4', '5', '6', '7', '8', '9', '+', '/']).map
    fun c => UInt8.ofNat c.toNat

/-- {lit}`base64_decode_table` -/
def base64DecodeTable : List UInt8 :=
  [ 0x00, 0x00, 0x00, 0x00, 0x00, 0x00, 0x00, 0x00, 0x00, 0x00, 0x00, 0x00, 0x00, 0x00, 0x00, 0x00,
    0x00, 0x00, 0x00, 0x00, 0x00, 0x00, 0x00, 0x00, 0x00, 0x00, 0x00, 0x00, 0x00, 0x00, 0x00, 0x00,
    0x00, 0x00, 0x00, 0x00, 0x00, 0x00, 0x00, 0x00, 0x00, 0x00, 0x00, 0x3E, 0x00, 0x00, 0x00, 0x3F,
    0x34, 0x35, 0x36, 0x37, 0x38, 0x39, 0x3A, 0x3B, 0x3C, 0x3D, 0x00, 0x00, 0x00, 0x00, 0x00, 0x00,
    0x00, 0x00, 0x01, 0x02, 0x03, 0x04, 0x05, 0x06, 0x07, 0x08, 0x09, 0x0A, 0x0B, 0x0C, 0x0D, 0x0E,
    0x0F, 0x10, 0x11, 0x12, 0x13, 0x14, 0x15, 0x16, 0x17, 0x18, 0x19, 0x00, 0x00, 0x00, 0x00, 0x00,
    0x00, 0x1A, 0x1B, 0x1C, 0x1D, 0x1E, 0x1F, 0x20, 0x21, 0x22, 0x23, 0x24, 0x25, 0x26, 0x27, 0x28,
    0x29, 0x2A, 0x2B, 0x2C, 0x2D, 0x2E, 0x2F, 0x30, 0x31, 0x32, 0x33, 0x00, 0x00, 0x00, 0x00, 0x00,
    0x00, 0x00, 0x00, 0x00, 0x00, 0x00, 0x00, 0x00, 0x00, 0x00, 0x00, 0x00, 0x00, 0x00, 0x00, 0x00,
    0x00, 0x00, 0x00, 0x00, 0x00, 0x00, 0x00, 0x00, 0x00, 0x00, 0x00, 0x00, 0x00, 0x00, 0x00, 0x00,
    0x00, 0x00, 0x00, 0x00, 0x00, 0x00, 0x00, 0x00, 0x00, 0x00, 0x00, 0x00, 0x00, 0x00, 0x00, 0x00,
    0x00, 0x00, 0x00, 0x00, 0x00, 0x00, 0x00, 0x00, 0x00, 0x00, 0x00, 0x00, 0x00, 0x00, 0x00, 0x00,
    0x00, 0x00, 0x00, 0x00, 0x00, 0x00, 0x00, 0x00, 0x00, 0x00, 0x00, 0x00, 0x00, 0x00, 0x00, 0x00,
    0x00, 0x00, 0x00, 0x00, 0x00, 0x00, 0x00, 0x00, 0x00, 0x00, 0x00, 0x00, 0x00, 0x00, 0x00, 0x00,
    0x00, 0x00, 0x00, 0x00, 0x00, 0x00, 0x00, 0x00, 0x00, 0x00, 0x00, 0x00, 0x00, 0x00, 0x00, 0x00,
    0x00, 0x00, 0x00, 0x00, 0x00, 0x00, 0x00, 0x00, 0x00, 0x00, 0x00, 0x00, 0x00, 0x00, 0x00, 0x00]

/-- The padding character. -/
def pad : UInt8 := 0x3D

/-- {lit}`base64_table[i]` -/
def base64Char (i : Nat) : UInt8 :=
  base64Table.getD i 0

/-- What the decoder takes a character for. -/
def sextet (c : UInt8) : Nat :=
  if c = pad then 0 else (base64DecodeTable.getD c.toNat 0).toNat

/-- The decoding table inverts the encoding table, which has neither the padding nor the
terminator. -/
theorem sextet_base64Char {i : Nat} (hi : i < 64) :
    sextet (base64Char i) = i ∧ base64Char i ≠ pad ∧ base64Char i ≠ 0 := by
  revert i
  decide

/-! ## Encoding and decoding -/

/-- The characters that {lit}`str_base64_encode_len` writes before the terminator. -/
def encode : List UInt8 → List UInt8
  | a :: b :: c :: src =>
      base64Char (Sextets.first a.toNat) :: base64Char (Sextets.second a.toNat b.toNat) ::
        base64Char (Sextets.third b.toNat c.toNat) :: base64Char (Sextets.fourth c.toNat) ::
        encode src
  | [a, b] =>
      [base64Char (Sextets.first a.toNat), base64Char (Sextets.second a.toNat b.toNat),
        base64Char ((b.toNat &&& 0x0f) <<< 2), pad]
  | [a] =>
      [base64Char (Sextets.first a.toNat), base64Char ((a.toNat &&& 0x03) <<< 4), pad, pad]
  | [] => []

/-- {lit}`str_base64_encode_len`: all bytes that are written. -/
def strBase64EncodeLen (src : List UInt8) : List UInt8 :=
  encode src ++ [0]

/-- {lit}`out_len`: three bytes for each group, less the padding in the last two places. -/
def outLen (data : List UInt8) : Nat :=
  data.length / 4 * 3 - (if data.getD (data.length - 1) 0 = pad then 1 else 0) -
    (if data.getD (data.length - 2) 0 = pad then 1 else 0)

/-- {lit}`if (j < out_len) decoded_data[j++] = b` -/
def putByte (out_len : Nat) (decoded_data : List UInt8) (b : Nat) : List UInt8 :=
  if decoded_data.length < out_len then decoded_data ++ [UInt8.ofNat b] else decoded_data

/-- The loop of {lit}`str_base64_decode`, four characters at a time. -/
def decodeLoop (out_len : Nat) : List UInt8 → List UInt8 → List UInt8
  | c₁ :: c₂ :: c₃ :: c₄ :: data, decoded_data =>
      let triple := Sextets.triple (sextet c₁) (sextet c₂) (sextet c₃) (sextet c₄)
      let decoded_data := putByte out_len decoded_data (Sextets.octet triple 2)
      let decoded_data := putByte out_len decoded_data (Sextets.octet triple 1)
      decodeLoop out_len data (putByte out_len decoded_data (Sextets.octet triple 0))
  | _, decoded_data => decoded_data

/-- {lit}`str_base64_decode`: the result and the decoded bytes. -/
def strBase64Decode (data : List UInt8) : Nat × List UInt8 :=
  if data.length % 4 ≠ 0 then (0, [])
  else (outLen data, decodeLoop (outLen data) data [])

/-! ## The text -/

/-- A rest of two bytes is encoded as a group with a zero byte. -/
theorem third_zero (b : Nat) : Sextets.third b 0 = (b &&& 0x0f) <<< 2 :=
  Nat.or_zero _

/-- A rest of one byte is encoded as a group with two zero bytes. -/
theorem second_zero (a : Nat) : Sextets.second a 0 = (a &&& 0x03) <<< 4 :=
  Nat.or_zero _

/-- The decoder takes padding for the sextets of zero bytes. -/
theorem sextet_pad : sextet pad = Sextets.third 0 0 ∧ sextet pad = Sextets.fourth 0 := by
  decide

section Group

variable (a b c : UInt8)

/-- The characters of a group are in the encoding table. -/
theorem group_lt : Sextets.first a.toNat < 64 ∧ Sextets.second a.toNat b.toNat < 64 ∧
    Sextets.third b.toNat c.toNat < 64 ∧ Sextets.fourth c.toNat < 64 :=
  Sextets.sextets_lt a.toNat_lt b.toNat_lt c.toNat_lt

/-- The bytes of a group are read back from its sextets. -/
theorem octet_group {s₁ s₂ s₃ s₄ : Nat} (h₁ : s₁ = Sextets.first a.toNat)
    (h₂ : s₂ = Sextets.second a.toNat b.toNat) (h₃ : s₃ = Sextets.third b.toNat c.toNat)
    (h₄ : s₄ = Sextets.fourth c.toNat) :
    Sextets.octet (Sextets.triple s₁ s₂ s₃ s₄) 2 = a.toNat ∧
      Sextets.octet (Sextets.triple s₁ s₂ s₃ s₄) 1 = b.toNat ∧
      Sextets.octet (Sextets.triple s₁ s₂ s₃ s₄) 0 = c.toNat := by
  rw [h₁, h₂, h₃, h₄]
  exact Sextets.octet_triple a.toNat_lt b.toNat_lt c.toNat_lt

end Group

/-- A group of three bytes takes four characters, and so does a rest. -/
theorem length_encode (src : List UInt8) : (encode src).length = 4 * ((src.length + 2) / 3) := by
  induction src using encode.induct with
  | case1 a b c src ih =>
      simp only [encode, List.length_cons, ih]
      omega
  | case2 a b => simp [encode]
  | case3 a => simp [encode]
  | case4 => simp [encode]

/-- The text has no terminator before its end. -/
theorem zero_notMem_encode (src : List UInt8) : 0 ∉ encode src := by
  induction src using encode.induct with
  | case1 a b c src ih =>
      rcases group_lt a b c with ⟨h₁, h₂, h₃, h₄⟩
      simp [encode, ih, (sextet_base64Char h₁).2.2.symm, (sextet_base64Char h₂).2.2.symm,
        (sextet_base64Char h₃).2.2.symm, (sextet_base64Char h₄).2.2.symm]
  | case2 a b =>
      rcases group_lt a b 0 with ⟨h₁, h₂, h₃, -⟩
      have h₃' := (sextet_base64Char h₃).2.2.symm
      rw [show (0 : UInt8).toNat = 0 from rfl, third_zero] at h₃'
      simp [encode, pad, (sextet_base64Char h₁).2.2.symm, (sextet_base64Char h₂).2.2.symm, h₃']
  | case3 a =>
      rcases group_lt a 0 0 with ⟨h₁, h₂, -, -⟩
      have h₂' := (sextet_base64Char h₂).2.2.symm
      rw [show (0 : UInt8).toNat = 0 from rfl, second_zero] at h₂'
      simp [encode, pad, (sextet_base64Char h₁).2.2.symm, h₂']
  | case4 => simp [encode]

/-- A byte that still fits is appended. -/
theorem putByte_of_lt {out_len : Nat} {decoded_data : List UInt8} (b : UInt8)
    (h : decoded_data.length < out_len) :
    putByte out_len decoded_data b.toNat = decoded_data ++ [b] := by
  rw [putByte, if_pos h, UInt8.ofNat_toNat]

/-- No byte is appended to the full output. -/
theorem putByte_of_le {out_len : Nat} {decoded_data : List UInt8} (b : Nat)
    (h : out_len ≤ decoded_data.length) : putByte out_len decoded_data b = decoded_data :=
  if_neg (Nat.not_lt.mpr h)

/-- The loop appends the bytes of a text when the output ends with them. -/
theorem decodeLoop_encode {out_len : Nat} (src decoded_data : List UInt8)
    (h : decoded_data.length + src.length = out_len) :
    decodeLoop out_len (encode src) decoded_data = decoded_data ++ src := by
  induction src using encode.induct generalizing decoded_data with
  | case1 a b c src ih =>
      rcases group_lt a b c with ⟨h₁, h₂, h₃, h₄⟩
      rcases octet_group a b c (sextet_base64Char h₁).1 (sextet_base64Char h₂).1
        (sextet_base64Char h₃).1 (sextet_base64Char h₄).1 with ⟨ha, hb, hc⟩
      simp only [List.length_cons] at h
      simp only [encode, decodeLoop, ha, hb, hc]
      rw [putByte_of_lt a (by omega), putByte_of_lt b (by simp; omega),
        putByte_of_lt c (by simp; omega), ih _ (by simp; omega)]
      simp
  | case2 a b =>
      rcases group_lt a b 0 with ⟨h₁, h₂, h₃, -⟩
      rcases octet_group a b 0 (sextet_base64Char h₁).1 (sextet_base64Char h₂).1
        (sextet_base64Char h₃).1 sextet_pad.2 with ⟨ha, hb, -⟩
      rw [show (0 : UInt8).toNat = 0 from rfl, third_zero] at ha hb
      simp only [List.length_cons, List.length_nil] at h
      simp only [encode, decodeLoop, ha, hb]
      rw [putByte_of_lt a (by omega), putByte_of_lt b (by simp; omega),
        putByte_of_le _ (by simp; omega), List.append_assoc]
      rfl
  | case3 a =>
      rcases group_lt a 0 0 with ⟨h₁, h₂, -, -⟩
      rcases octet_group a 0 0 (sextet_base64Char h₁).1 (sextet_base64Char h₂).1
        sextet_pad.1 sextet_pad.2 with ⟨ha, -, -⟩
      rw [show (0 : UInt8).toNat = 0 from rfl, second_zero] at ha
      simp only [List.length_cons, List.length_nil] at h
      simp only [encode, decodeLoop, ha]
      have hfull (b : Nat) : putByte out_len (decoded_data ++ [a]) b = decoded_data ++ [a] :=
        putByte_of_le b (by simp; omega)
      rw [putByte_of_lt a (by omega), hfull, hfull]
  | case4 => simp [encode, decodeLoop]

/-- A group in front does not change what the decoder counts at the end. -/
theorem outLen_cons (c₁ c₂ c₃ c₄ : UInt8) {data : List UInt8} (h : 4 ≤ data.length) :
    outLen (c₁ :: c₂ :: c₃ :: c₄ :: data) = 3 + outLen data := by
  have hlast (k : Nat) (hk : k ≤ data.length) :
      (c₁ :: c₂ :: c₃ :: c₄ :: data).getD (data.length + 1 + 1 + 1 + 1 - k) 0 =
        data.getD (data.length - k) 0 := by
    rw [show data.length + 1 + 1 + 1 + 1 - k = data.length - k + 1 + 1 + 1 + 1 by omega]
    rfl
  simp only [outLen, List.length_cons, hlast 1 (by omega), hlast 2 (by omega)]
  split_ifs <;> omega

/-- The decoder counts the bytes of a text. -/
theorem outLen_encode {src : List UInt8} (hne : src ≠ []) : outLen (encode src) = src.length := by
  induction src using encode.induct with
  | case1 a b c src ih =>
      rcases group_lt a b c with ⟨h₁, h₂, h₃, h₄⟩
      rw [encode]
      cases hsrc : src with
      | nil =>
          simp [outLen, encode, (sextet_base64Char h₃).2.1, (sextet_base64Char h₄).2.1]
      | cons d rest =>
          have hne' : src ≠ [] := by simp [hsrc]
          have hlen := length_encode src
          have hpos := List.length_pos_of_ne_nil hne'
          rw [← hsrc, outLen_cons _ _ _ _ (by omega), ih hne']
          simp only [List.length_cons]
          omega
  | case2 a b =>
      have h₃ := (sextet_base64Char (group_lt a b 0).2.2.1).2.1
      rw [show (0 : UInt8).toNat = 0 from rfl, third_zero] at h₃
      simp [outLen, encode, h₃]
  | case3 a => simp [outLen, encode]
  | case4 => exact absurd rfl hne

/-- The string that is stored is the text without its terminator. -/
theorem bytes_ofBytes_encode (src : List UInt8) :
    (CStr.ofBytes (strBase64EncodeLen src)).bytes = encode src := by
  have hall : ∀ b ∈ encode src, b ≠ 0 := fun b hb h0 => zero_notMem_encode src (h0 ▸ hb)
  show (encode src ++ [0]).takeWhile (· ≠ 0) = encode src
  rw [List.takeWhile_append_of_pos (by simpa using hall)]
  simp

/-- For every configuration of at least one byte, the encoder writes no more bytes than
{lit}`write_cfg` allocates; they are a string, and from the string and its length the decoder
returns the number of bytes and the bytes. -/
theorem base64_lossless {src : List UInt8} (hne : 1 ≤ src.length) :
    (strBase64EncodeLen src).length ≤ src.length * 4 / 3 + 4 ∧
      (CStr.ofBytes (strBase64EncodeLen src)).bytes ++ [0] = strBase64EncodeLen src ∧
      strBase64Decode (CStr.ofBytes (strBase64EncodeLen src)).bytes = (src.length, src) := by
  have hlen := length_encode src
  refine ⟨?_, by rw [bytes_ofBytes_encode, strBase64EncodeLen], ?_⟩
  · rw [strBase64EncodeLen, List.length_append, List.length_singleton, hlen]
    omega
  · rw [bytes_ofBytes_encode, strBase64Decode, if_neg (by omega),
      outLen_encode (List.ne_nil_of_length_pos hne), decodeLoop_encode src [] (Nat.zero_add _)]
    rfl

/-- A configuration of five bytes: a full group, and two bytes that are padded. -/
theorem base64_lossless_padded :
    (strBase64EncodeLen [0xFB, 0xEF, 0x01, 0x00, 0xFF]).length ≤ 5 * 4 / 3 + 4 ∧
      (CStr.ofBytes (strBase64EncodeLen [0xFB, 0xEF, 0x01, 0x00, 0xFF])).bytes ++ [0] =
        strBase64EncodeLen [0xFB, 0xEF, 0x01, 0x00, 0xFF] ∧
      strBase64Decode (CStr.ofBytes (strBase64EncodeLen [0xFB, 0xEF, 0x01, 0x00, 0xFF])).bytes =
        (5, [0xFB, 0xEF, 0x01, 0x00, 0xFF]) :=
  @base64_lossless [0xFB, 0xEF, 0x01, 0x00, 0xFF] (by decide)

end Base64

end WeatherStation
