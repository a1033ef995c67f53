import Mathlib

/-! Tool error metadata. A value carries a legal code and a normalized message, as the constructor
of ToolErrorInfo enforces; normalizing a normalized message changes nothing, so a stored error
reads back as it was. -/

namespace RoboAgent.ToolErrors

/-- The characters Python's str.isspace accepts. -/
def isSpace (c : Char) : Bool :=
  let n := c.toNat
  (9 ≤ n && n ≤ 13) || (28 ≤ n && n ≤ 32) || n == 0x85 || n == 0xa0 || n == 0x1680 ||
    (0x2000 ≤ n && n ≤ 0x200a) || n == 0x2028 || n == 0x2029 || n == 0x202f || n == 0x205f ||
    n == 0x3000

def unifyNewlines : List Char → List Char
  | '\r' :: '\n' :: rest => '\n' :: unifyNewlines rest
  | '\r' :: rest => '\n' :: unifyNewlines rest
  | c :: rest => c :: unifyNewlines rest
  | [] => []

/-- Python's str.split() without a separator. -/
def words (text : List Char) : List (List Char) :=
  (text.splitOnP isSpace).filter fun word => !word.isEmpty

def isPrintable (c : Char) : Bool := c == '\n' || c == '\t' || 32 ≤ c.toNat

def normalizeChars (text : List Char) : List Char :=
  [' '].intercalate (words ((unifyNewlines text).filter isPrintable))

def normalizeMessage (message : String) : String := String.ofList (normalizeChars message.toList)

/-- The pattern `[a-z][a-z0-9_]{0,127}`. -/
def isErrorCode (code : String) : Bool :=
  match code.toList with
  | [] => false
  | first :: rest =>
    first.isLower && rest.all (fun c => c.isLower || c.isDigit || c == '_') && rest.length ≤ 127

structure ToolErrorInfo where
  code : String
  message : String
  retryable : Bool := false
  codeValid : isErrorCode code = true := by decide
  messageNormalized : normalizeMessage message = message := by decide
  messageNonempty : message ≠ "" := by decide
deriving DecidableEq

theorem unifyNewlines_of_no_return (text : List Char) (h : ∀ c ∈ text, c ≠ '\r') :
    unifyNewlines text = text := by
  induction text with
  | nil => rfl
  | cons c rest ih =>
    have hc : c ≠ '\r' := h c List.mem_cons_self
    rw [unifyNewlines, ih fun d hd => h d (List.mem_cons_of_mem c hd)]
    · rintro rest' rfl
      exact absurd rfl hc
    · rintro rfl
      exact absurd rfl hc

theorem mem_splitOnP {p : Char → Bool} {text : List Char} :
    ∀ word ∈ text.splitOnP p, ∀ c ∈ word, c ∈ text ∧ p c = false := by
  induction text with
  | nil => simp [List.splitOnP_nil]
  | cons first rest ih =>
    intro word hword c hc
    rw [List.splitOnP_cons_eq_if_modifyHead] at hword
    split at hword
    · rcases List.mem_cons.mp hword with rfl | hword
      · cases hc
      · exact (ih word hword c hc).imp (List.mem_cons_of_mem first) id
    · obtain ⟨head, tail, split⟩ := List.exists_cons_of_ne_nil (List.splitOnP_ne_nil p rest)
      rw [split, List.modifyHead_cons] at hword
      rw [split] at ih
      rcases List.mem_cons.mp hword with rfl | hword
      · rcases List.mem_cons.mp hc with rfl | hc
        · exact ⟨List.mem_cons_self, by simpa using ‹¬p c = true›⟩
        · exact (ih head List.mem_cons_self c hc).imp (List.mem_cons_of_mem first) id
      · exact (ih word (List.mem_cons_of_mem head hword) c hc).imp (List.mem_cons_of_mem first) id

theorem mem_words {text word : List Char} (h : word ∈ words text) :
    word ≠ [] ∧ ∀ c ∈ word, c ∈ text ∧ isSpace c = false := by
  obtain ⟨member, nonempty⟩ := List.mem_filter.mp h
  exact ⟨by simpa using nonempty, mem_splitOnP word member⟩

theorem words_intercalate (ws : List (List Char))
    (h : ∀ word ∈ ws, word ≠ [] ∧ ∀ c ∈ word, isSpace c = false) :
    words ([' '].intercalate ws) = ws := by
  induction ws with
  | nil => rfl
  | cons word rest ih =>
    obtain ⟨nonempty, letters⟩ := h word List.mem_cons_self
    have keep : (!word.isEmpty) = true := by simpa using nonempty
    cases rest with
    | nil =>
      rw [List.intercalate_singleton, words, List.splitOnP_eq_singleton letters]
      simp [nonempty]
    | cons next rest =>
      have tail := ih fun w hw => h w (List.mem_cons_of_mem word hw)
      rw [List.intercalate_cons_cons, List.append_assoc, List.singleton_append, words,
        List.splitOnP_append_cons_of_forall_mem letters ' ' (by decide), List.filter_cons,
        if_pos keep]
      exact congrArg (word :: ·) tail

theorem mem_intercalate {separator : List Char} {ws : List (List Char)} {c : Char}
    (h : c ∈ separator.intercalate ws) : c ∈ separator ∨ ∃ word ∈ ws, c ∈ word := by
  induction ws with
  | nil => cases h
  | cons word rest ih =>
    cases rest with
    | nil =>
      rw [List.intercalate_singleton] at h
      exact .inr ⟨word, List.mem_cons_self, h⟩
    | cons next rest =>
      rw [List.intercalate_cons_cons] at h
      rcases List.mem_append.mp h with h | h
      · rcases List.mem_append.mp h with h | h
        · exact .inr ⟨word, List.mem_cons_self, h⟩
        · exact .inl h
      · exact (ih h).imp_right fun ⟨w, hw, hc⟩ => ⟨w, List.mem_cons_of_mem word hw, hc⟩

private theorem not_return_of_not_isSpace {c : Char} (h : isSpace c = false) : c ≠ '\r' := by
  rintro rfl
  exact absurd h (by decide)

theorem normalizeChars_idempotent (text : List Char) :
    normalizeChars (normalizeChars text) = normalizeChars text := by
  have visible : ∀ c ∈ normalizeChars text, c ≠ '\r' ∧ isPrintable c = true := by
    intro c hc
    rcases mem_intercalate hc with hc | ⟨word, hword, hc⟩
    · rw [List.mem_singleton.mp hc]
      decide
    · obtain ⟨member, letter⟩ := (mem_words hword).2 c hc
      exact ⟨not_return_of_not_isSpace letter, (List.mem_filter.mp member).2⟩
  have unchanged : (unifyNewlines (normalizeChars text)).filter isPrintable =
      normalizeChars text := by
    rw [unifyNewlines_of_no_return _ fun c hc => (visible c hc).1,
      List.filter_eq_self.mpr fun c hc => (visible c hc).2]
  rw [normalizeChars, unchanged, normalizeChars, words_intercalate]
  exact fun word hword => (mem_words hword).imp_right fun letters c hc => (letters c hc).2

theorem normalizeMessage_idempotent (message : String) :
    normalizeMessage (normalizeMessage message) = normalizeMessage message := by
  simp only [normalizeMessage, String.toList_ofList, normalizeChars_idempotent]

/-- The constructor of ToolErrorInfo, on a code and a message from outside. -/
def ToolErrorInfo.new (code message : String) (retryable : Bool) : Option ToolErrorInfo :=
  if codeValid : isErrorCode code = true then
    if messageNonempty : normalizeMessage message ≠ "" then
      some ⟨code, normalizeMessage message, retryable, codeValid,
        normalizeMessage_idempotent message, messageNonempty⟩
    else none
  else none

theorem ToolErrorInfo.new_self (error : ToolErrorInfo) :
    ToolErrorInfo.new error.code error.message error.retryable = some error := by
  have nonempty : normalizeMessage error.message ≠ "" := by
    rw [error.messageNormalized]
    exact error.messageNonempty
  rw [ToolErrorInfo.new, dif_pos error.codeValid, dif_pos nonempty]
  simp only [error.messageNormalized]

end RoboAgent.ToolErrors
