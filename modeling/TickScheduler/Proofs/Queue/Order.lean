import Mathlib.Data.List.Lex
import Mathlib.Data.Prod.Lex
import Mathlib.Data.String.Basic
import TickScheduler.Task
/-!
The order of tasks, read off a key: time, priority, the bytes of the entry's name, the id with a missing
one at the bottom, and the bytes of the action's name, compared one after the other. Texts are compared by
their code points, and `strictMono_encode` says that their UTF-8 bytes come to the same.
-/
namespace TickScheduler

namespace Text

/-- The UTF-8 bytes of a text. -/
def bytes (s : String) : List ℕ := s.toByteArray.data.toList.map UInt8.toNat

/-- The UTF-8 bytes of some characters. -/
def encode (chars : List Char) : List ℕ := (chars.flatMap String.utf8EncodeChar).map UInt8.toNat

theorem bytes_eq_encode (s : String) : bytes s = encode s.toList := by
  rw [bytes, encode, ← String.utf8Encode_toList]
  simp [List.utf8Encode]

theorem encode_cons (c : Char) (chars : List Char) :
    encode (c :: chars) = (String.utf8EncodeChar c).map UInt8.toNat ++ encode chars := by
  simp [encode]

theorem codePoint_lt (c : Char) : c.val.toNat < 0x110000 := by
  obtain h | h := c.valid
  · exact Nat.lt_trans h (by decide)
  · exact h.2

/-- The smaller of two numbers has the smaller digit where they first differ. -/
theorem digits_lt {v w : ℕ} (h : v < w) :
    v / 262144 < w / 262144 ∨ v / 262144 = w / 262144 ∧ (v / 4096 % 64 < w / 4096 % 64 ∨
      v / 4096 % 64 = w / 4096 % 64 ∧ (v / 64 % 64 < w / 64 % 64 ∨
        v / 64 % 64 = w / 64 % 64 ∧ v % 64 < w % 64)) := by
  omega

/-- The bytes of two characters differ before either of them ends. -/
theorem encode_char_lt {c d : Char} (h : c < d) (rest others : List ℕ) :
    (String.utf8EncodeChar c).map UInt8.toNat ++ rest <
      (String.utf8EncodeChar d).map UInt8.toNat ++ others := by
  have hLess : c.val.toNat < d.val.toNat := h
  have hTop : d.val.toNat < 0x110000 := codePoint_lt d
  have hDigits := digits_lt hLess
  unfold String.utf8EncodeChar
  generalize c.val.toNat = v at *
  generalize d.val.toNat = w at *
  dsimp only
  -- Of two characters with bytes of different number the first byte decides.
  split_ifs <;>
    simp (disch := omega) only [List.map_cons, List.map_nil, List.cons_append, List.nil_append,
      List.cons_lt_cons_iff, UInt8.toNat_ofNat', Nat.mod_eq_of_lt, Nat.reducePow] <;>
    omega

theorem strictMono_encode : StrictMono encode := by
  intro xs ys h
  replace h : List.Lex (· < ·) xs ys := h
  induction h with
  | @nil d ds =>
      have hSome : String.utf8EncodeChar d ≠ [] := by
        simpa [← List.length_eq_zero_iff] using (Char.utf8Size_pos d).ne'
      cases hBytes : String.utf8EncodeChar d with
      | nil => exact absurd hBytes hSome
      | cons byte bytes => simp [encode, hBytes]
  | cons _ ih =>
      rw [encode_cons, encode_cons]
      exact List.append_left_lt ih
  | rel h =>
      rw [encode_cons, encode_cons]
      exact encode_char_lt h _ _

theorem bytes_lt_iff (s t : String) : bytes s < bytes t ↔ s < t := by
  rw [bytes_eq_encode, bytes_eq_encode, strictMono_encode.lt_iff_lt, String.lt_iff]

theorem bytes_injective : Function.Injective bytes := by
  intro s t h
  rw [bytes_eq_encode, bytes_eq_encode] at h
  exact String.toList_inj.mp (strictMono_encode.injective h)

end Text

namespace Task

/-- What the order of tasks looks at, in this order. A missing id is below every number. -/
def key (task : Task) : ℤ ×ₗ ℤ ×ₗ List ℕ ×ₗ Option ℤ ×ₗ List ℕ :=
  toLex (task.time.toInt, toLex (task.priority.toInt, toLex (Text.bytes task.entryName,
    toLex (task.taskId.map Int64.toInt, Text.bytes task.action))))

theorem toInt_lt_iff : ∀ {x y : Option TaskId}, x.map Int64.toInt < y.map Int64.toInt ↔ compare x y = .lt
  | none, none => by simp
  | some _, none => by simp
  | none, some _ => by
      simp only [Option.map_none, Option.map_some, Option.none_lt_some, true_iff]
      rfl
  | some x, some y => by
      change some x.toInt < some y.toInt ↔ compare x y = .lt
      rw [Option.some_lt_some, Std.compare_eq_lt, Int64.lt_iff_toInt_lt]

theorem toInt_inj {x y : Option TaskId} : x.map Int64.toInt = y.map Int64.toInt ↔ x = y :=
  (Option.map_injective fun _ _ => Int64.toInt_inj.mp).eq_iff

/-- One task is before another if its key is smaller. -/
theorem key_lt_iff {a b : Task} : a.key < b.key ↔ a < b := by
  have hText (s t : String) : compare s t = .lt ↔ s < t := compareOfLessAndEq_eq_lt
  change _ ↔ order a b = .lt
  simp only [order, compareLex, compareOn, Ordering.then_eq_lt, Std.compare_eq_lt, Std.compare_eq_iff_eq,
    key, Prod.Lex.toLex_lt_toLex, ← Int64.lt_iff_toInt_lt, ← Int32.lt_iff_toInt_lt, Int64.toInt_inj,
    Int32.toInt_inj, Text.bytes_lt_iff, Text.bytes_injective.eq_iff, toInt_lt_iff, toInt_inj, hText]

theorem compare_eq_iff {a b : Task} : compare a b = .eq ↔ a = b := Std.LawfulEqCmp.compare_eq_iff_eq

instance : IsTrans Task (· ≤ ·) := ⟨fun _ _ _ => le_trans⟩

instance : Std.Antisymm (α := Task) (· ≤ ·) := ⟨fun _ _ => le_antisymm⟩

instance : Std.Total (α := Task) (· ≤ ·) := ⟨le_total⟩

end Task

end TickScheduler
