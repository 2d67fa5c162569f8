/-
# `HartMonitor.Word` — bytes, words and their little-endian order

A machine word is a `BitVec 32`: arithmetic wraps, the unsigned reading is
`toNat` and the signed one `toInt`.  A byte is a `BitVec 8`.  Two maps tie
them together, least significant byte first:

    wordOfBytes   the word whose low bytes are the given ones; what lies past
                  the fourth byte is shifted out
    bytesOfWord   the low `n` bytes of a word, zeros after the fourth

`signExtendFrom n` reads the low `n` bits as a two's-complement number.

    getLsbD_wordOfBytes        a bit of a word, in the byte it comes from
    getElem?_bytesOfWord       a byte of a word, as eight of its bits
-/

namespace HartMonitor

/-- Eight bits. -/
abbrev Byte := BitVec 8

/-- A machine word of thirty-two bits. -/
abbrev Word := BitVec 32

/-- The word whose low bytes are `bytes`, least significant first; bytes past the fourth do not
count. -/
def wordOfBytes : List Byte → Word
  | [] => 0
  | b :: rest => (wordOfBytes rest <<< 8) ||| b.setWidth 32

def bytesOfWord (w : Word) : Nat → List Byte
  | 0 => []
  | n + 1 => w.setWidth 8 :: bytesOfWord (w >>> 8) n

theorem length_bytesOfWord (w : Word) (n : Nat) : (bytesOfWord w n).length = n := by
  induction n generalizing w with
  | zero => rfl
  | succ n ih => simp [bytesOfWord, ih]

/-- Every bit of a word that bytes spell is a bit of one of them. -/
theorem getLsbD_wordOfBytes (bytes : List Byte) (i : Nat) :
    (wordOfBytes bytes).getLsbD i =
      (decide (i < 32) && ((bytes[i / 8]?).getD 0).getLsbD (i % 8)) := by
  induction bytes generalizing i with
  | nil => simp [wordOfBytes]
  | cons b rest ih =>
    simp only [wordOfBytes, BitVec.getLsbD_or, BitVec.getLsbD_shiftLeft, BitVec.getLsbD_setWidth, ih]
    by_cases h : i < 8
    · have h0 : i / 8 = 0 := by omega
      have h1 : i % 8 = i := by omega
      simp [h, h0, h1]
    · have h0 : i / 8 = (i - 8) / 8 + 1 := by omega
      have h1 : (i - 8) % 8 = i % 8 := by omega
      have high : b.getLsbD i = false := BitVec.getLsbD_of_ge _ _ (by omega)
      by_cases h32 : i < 32
      · have : i - 8 < 32 := by omega
        simp [h, h0, h1, high, h32, this]
      · simp [h32, high]

/-- The bytes of a word are its groups of eight bits. -/
theorem getElem?_bytesOfWord (w : Word) (n i : Nat) :
    (bytesOfWord w n)[i]? = if i < n then some (w.extractLsb' (8 * i) 8) else none := by
  induction n generalizing w i with
  | zero => simp [bytesOfWord]
  | succ n ih =>
    cases i with
    | zero =>
      simp only [bytesOfWord, List.getElem?_cons_zero, Nat.zero_lt_succ, if_true]
      exact congrArg some (by ext j hj; simp)
    | succ i =>
      simp only [bytesOfWord, List.getElem?_cons_succ, ih, Nat.succ_lt_succ_iff]
      split
      · congr 1
        ext j hj
        have e : 8 + (8 * i + j) = 8 * (i + 1) + j := by omega
        simp [e]
      · rfl

theorem getLsbD_wordOfBytes_bytesOfWord (w : Word) (n i : Nat) :
    (wordOfBytes (bytesOfWord w n)).getLsbD i = (decide (i < 8 * n) && w.getLsbD i) := by
  rw [getLsbD_wordOfBytes, getElem?_bytesOfWord]
  by_cases h32 : i < 32
  · by_cases h : i < 8 * n
    · have : i / 8 < n := by omega
      have e : 8 * (i / 8) + i % 8 = i := by omega
      have r : i % 8 < 8 := by omega
      simp [h32, h, this, e, r]
    · have : ¬ i / 8 < n := by omega
      simp [h, this]
  · simp [h32, BitVec.getLsbD_of_ge w i (by omega)]

/-- The low `bits` bits of `w`, read as a two's-complement number. -/
def signExtendFrom (bits : Nat) (w : Word) : Word :=
  (w.setWidth bits).signExtend 32

def wordOfBool (b : Bool) : Word :=
  if b then 1 else 0

end HartMonitor
