import Mathlib
import SchemaCodec.Text.Utf8

/-!
# Proofs.Text.ByteOrder — texts in the order of their bytes

- `utf8_eq_flatMap`: the bytes of a text are those of its characters.
- `encodeChar_lt`: a smaller character has smaller bytes, whatever follows them.
- `lt_iff_utf8_lt`: the order of texts is that of their bytes.

The first byte of a character tells how many bytes there are, and six bits of the code point stand
in each further one, the highest first.
-/

namespace SchemaCodec
namespace Text

theorem utf8_eq_flatMap (s : String) : utf8 s = s.toList.flatMap String.utf8EncodeChar := by
  have hencoded : s.toByteArray = s.toList.utf8Encode := by
    rw [← String.toByteArray_ofList, String.ofList_toList]
  calc
    utf8 s = s.toByteArray.data.toList := rfl
    _ = s.toList.utf8Encode.data.toList := by rw [hencoded]
    _ = s.toList.flatMap String.utf8EncodeChar := by simp [List.utf8Encode]

/-! ## Bytes of characters -/

section Digits

variable {m n : Nat} {xs ys : List UInt8}

theorem cons_lt_cons_of_lt (hn : n < 256) (h : m < n) :
    UInt8.ofNat m :: xs < UInt8.ofNat n :: ys := by
  have hbyte : UInt8.ofNat m < UInt8.ofNat n := by
    have hm : m < 256 := Nat.lt_trans h hn
    simpa [UInt8.lt_iff_toNat_lt, Nat.mod_eq_of_lt hm, Nat.mod_eq_of_lt hn] using h
  exact List.cons_lt_cons_iff.2 (.inl hbyte)

theorem cons_lt_cons_of_tail (h : m = n) (htail : xs < ys) :
    UInt8.ofNat m :: xs < UInt8.ofNat n :: ys :=
  List.cons_lt_cons_iff.2 (.inr ⟨congrArg UInt8.ofNat h, htail⟩)

/-- The last six bits decide where all others agree. -/
theorem lastByte_lt (h : m < n) (hsame : m / 64 = n / 64) :
    UInt8.ofNat (m % 64 + 128) :: xs < UInt8.ofNat (n % 64 + 128) :: ys :=
  cons_lt_cons_of_lt (by omega) (by omega)

theorem lastTwoBytes_lt (h : m < n) (hsame : m / 4096 = n / 4096) :
    UInt8.ofNat (m / 64 % 64 + 128) :: UInt8.ofNat (m % 64 + 128) :: xs <
      UInt8.ofNat (n / 64 % 64 + 128) :: UInt8.ofNat (n % 64 + 128) :: ys := by
  rcases Nat.lt_or_ge (m / 64) (n / 64) with hlt | hge
  · exact cons_lt_cons_of_lt (by omega) (by omega)
  · have hequal : m / 64 = n / 64 := by omega
    exact cons_lt_cons_of_tail (by rw [hequal]) (lastByte_lt h hequal)

theorem lastThreeBytes_lt (h : m < n) (hsame : m / 262144 = n / 262144) :
    UInt8.ofNat (m / 4096 % 64 + 128) :: UInt8.ofNat (m / 64 % 64 + 128) ::
        UInt8.ofNat (m % 64 + 128) :: xs <
      UInt8.ofNat (n / 4096 % 64 + 128) :: UInt8.ofNat (n / 64 % 64 + 128) ::
        UInt8.ofNat (n % 64 + 128) :: ys := by
  rcases Nat.lt_or_ge (m / 4096) (n / 4096) with hlt | hge
  · exact cons_lt_cons_of_lt (by omega) (by omega)
  · have hequal : m / 4096 = n / 4096 := by omega
    exact cons_lt_cons_of_tail (by rw [hequal]) (lastTwoBytes_lt h hequal)

end Digits

/-- A smaller character has smaller bytes, whatever follows them. -/
theorem encodeChar_lt {c d : Char} (h : c < d) (xs ys : List UInt8) :
    String.utf8EncodeChar c ++ xs < String.utf8EncodeChar d ++ ys := by
  have hlt : c.val.toNat < d.val.toNat := by
    simpa [Char.lt_def, UInt32.lt_iff_toNat_lt] using h
  have hbound : d.val.toNat < 1114112 := by
    rcases d.valid with hsmall | ⟨-, hlarge⟩
    · omega
    · exact hlarge
  unfold String.utf8EncodeChar
  generalize c.val.toNat = m at hlt
  generalize d.val.toNat = n at hlt hbound
  dsimp only
  -- The number of bytes grows with the character, and so does the first byte with this number.
  by_cases hn₁ : n ≤ 127
  · rw [if_pos hn₁, if_pos (by omega)]
    exact cons_lt_cons_of_lt (by omega) hlt
  rw [if_neg hn₁]
  by_cases hm₁ : m ≤ 127
  · rw [if_pos hm₁]
    split
    · exact cons_lt_cons_of_lt (by omega) (by omega)
    · split <;> exact cons_lt_cons_of_lt (by omega) (by omega)
  rw [if_neg hm₁]
  by_cases hn₂ : n ≤ 2047
  · rw [if_pos hn₂, if_pos (by omega)]
    rcases Nat.lt_or_ge (m / 64) (n / 64) with hfirst | hfirst
    · exact cons_lt_cons_of_lt (by omega) (by omega)
    · exact cons_lt_cons_of_tail (by omega) (lastByte_lt hlt (by omega))
  rw [if_neg hn₂]
  by_cases hm₂ : m ≤ 2047
  · rw [if_pos hm₂]
    split <;> exact cons_lt_cons_of_lt (by omega) (by omega)
  rw [if_neg hm₂]
  by_cases hn₃ : n ≤ 65535
  · rw [if_pos hn₃, if_pos (by omega)]
    rcases Nat.lt_or_ge (m / 4096) (n / 4096) with hfirst | hfirst
    · exact cons_lt_cons_of_lt (by omega) (by omega)
    · exact cons_lt_cons_of_tail (by omega) (lastTwoBytes_lt hlt (by omega))
  rw [if_neg hn₃]
  by_cases hm₃ : m ≤ 65535
  · rw [if_pos hm₃]
    exact cons_lt_cons_of_lt (by omega) (by omega)
  rw [if_neg hm₃]
  rcases Nat.lt_or_ge (m / 262144) (n / 262144) with hfirst | hfirst
  · exact cons_lt_cons_of_lt (by omega) (by omega)
  · exact cons_lt_cons_of_tail (by omega) (lastThreeBytes_lt hlt (by omega))

/-! ## Texts -/

theorem flatMap_encodeChar_lt {cs ds : List Char} (h : cs < ds) :
    cs.flatMap String.utf8EncodeChar < ds.flatMap String.utf8EncodeChar := by
  induction cs generalizing ds with
  | nil =>
    cases ds with
    | nil => exact absurd h (List.not_lt_nil _)
    | cons d ds =>
      have hne : String.utf8EncodeChar d ≠ [] := String.utf8EncodeChar_ne_nil
      rw [List.flatMap_nil, List.flatMap_cons]
      cases hbytes : String.utf8EncodeChar d with
      | nil => exact absurd hbytes hne
      | cons b bytes => exact List.nil_lt_cons _ _
  | cons c cs ih =>
    cases ds with
    | nil => exact absurd h (List.not_lt_nil _)
    | cons d ds =>
      rw [List.flatMap_cons, List.flatMap_cons]
      rcases List.cons_lt_cons_iff.1 h with hfirst | ⟨rfl, hrest⟩
      · exact encodeChar_lt hfirst _ _
      · exact List.append_left_lt (ih hrest)

/-- The order of texts is that of their bytes. -/
theorem lt_iff_utf8_lt (s t : String) : s < t ↔ utf8 s < utf8 t := by
  have hmono : ∀ s t : String, s < t → utf8 s < utf8 t := by
    intro s t h
    rw [utf8_eq_flatMap, utf8_eq_flatMap]
    exact flatMap_encodeChar_lt (String.lt_iff_toList_lt.1 h)
  refine ⟨hmono s t, ?_⟩
  intro h
  -- Two texts are comparable, and the bytes of the other two cases compare otherwise.
  rcases lt_trichotomy s t with hlt | rfl | hgt
  · exact hlt
  · exact absurd h (List.lt_irrefl _)
  · exact absurd h (List.lt_asymm (hmono t s hgt))

end Text
end SchemaCodec
