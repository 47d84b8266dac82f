import Valuer.Proofs.Yaml.Scalars
import Valuer.Yaml.Token

set_option autoImplicit false

/-! # Cutting a text token by token

Between two tokens blanks are skipped, keys that came to nothing are dropped and blocks are closed;
then the next token is taken (`Cutting.takeAll_eq`). Each token takes at least one character
(`Cutting.length_takeToken`), so the guard of `takeAll` refuses no text. -/

namespace Valuer.Yaml.Cutting

/-! ## What is skipped -/

section Skipping

variable {inFlow keyAllowed : Bool} {p : Position} {rest : List Char}

theorem length_skipBlanks (comment : Bool) (cs : List Char) :
    (skipBlanks inFlow comment keyAllowed p cs).2.2.length ≤ cs.length := by
  induction cs generalizing comment keyAllowed p with
  | nil => exact Nat.le_refl _
  | cons c cs ih =>
      unfold skipBlanks
      split_ifs
      · exact Nat.le_succ_of_le (ih _)
      · exact Nat.le_succ_of_le (ih _)
      · exact Nat.le_succ_of_le (ih _)
      · exact Nat.le_refl _

theorem skipBlanks_of_atWord (h : AtWord rest) :
    skipBlanks inFlow false keyAllowed p rest = (keyAllowed, p, rest) := by
  cases rest with
  | nil => rfl
  | cons c rest =>
      obtain ⟨hblank, hbreak, hcomment⟩ := h c rfl
      simp only [isBlank, Bool.or_eq_false_iff] at hblank
      simp [skipBlanks, hbreak, hblank.1, hblank.2, hcomment]

theorem skipBlanks_spaces (n : Nat) :
    skipBlanks inFlow false keyAllowed p (List.replicate n ' ' ++ rest)
      = skipBlanks inFlow false keyAllowed (p.ahead n) rest := by
  induction n generalizing p with
  | zero => rfl
  | succ n ih =>
      have hspace : isBreak ' ' = false := by decide
      rw [List.replicate_succ, List.cons_append, skipBlanks, hspace,
        Position.next_of_ne p (by decide)]
      have hstay := ih (p := p.ahead 1)
      rw [Position.ahead_ahead, Nat.add_comm 1 n] at hstay
      simpa using hstay

/-- A line break outside of flow collections allows a key. -/
theorem skipBlanks_lineBreak {n : Nat} (h : AtWord rest) :
    skipBlanks false false keyAllowed p ('\n' :: (List.replicate n ' ' ++ rest))
      = (true, ⟨p.index + 1 + n, p.line + 1, n⟩, rest) := by
  have hbreak : isBreak '\n' = true := by decide
  have hnext : (p.next '\n').ahead n = ⟨p.index + 1 + n, p.line + 1, n⟩ := by
    simp [Position.next, Position.ahead]
  rw [skipBlanks, if_pos hbreak, skipBlanks_spaces, skipBlanks_of_atWord h, hnext]
  simp

end Skipping

variable {s next r : Cutting} {c : Char} {rest : List Char}

/-! ## Every token takes a character -/

theorem setCurrent_rest (s : Cutting) (k : Option PossibleKey) :
    (s.setCurrent k).rest = s.rest := by
  unfold setCurrent
  split <;> rfl

theorem setCurrent_inFlow (s : Cutting) (k : Option PossibleKey) :
    (s.setCurrent k).inFlow = s.inFlow := by
  unfold setCurrent inFlow
  split <;> simp [*]

theorem dropKey_eq_some (h : s.dropKey = some next) :
    next.rest = s.rest ∧ next.inFlow = s.inFlow := by
  unfold dropKey at h
  split at h
  · split at h
    · exact absurd h (by simp)
    · cases h
      exact ⟨setCurrent_rest s none, setCurrent_inFlow s none⟩
  · cases h
    exact ⟨rfl, rfl⟩

theorem noteKey_eq_some (h : s.noteKey = some next) :
    next.rest = s.rest ∧ next.inFlow = s.inFlow := by
  unfold noteKey at h
  split at h
  · obtain ⟨dropped, hdrop, hnote⟩ := Option.bind_eq_some_iff.1 h
    cases hnote
    rw [setCurrent_rest, setCurrent_inFlow]
    exact dropKey_eq_some hdrop
  · cases h
    exact ⟨rfl, rfl⟩

theorem dedent_rest (s : Cutting) (column : Int) : (s.dedent column).rest = s.rest := by
  unfold dedent
  split <;> rfl

theorem indentAt_rest (s : Cutting) (column : Int) (n : Nat) (t : Token) :
    (s.indentAt column n t).rest = s.rest := by
  unfold indentAt
  split <;> rfl

theorem length_readPlain {place : PlainPlace} {acc cs : List Char} {gap : Gap} {p : Position}
    {r : ReadScalar} (h : readPlain place acc gap p cs = some r) : r.rest.length ≤ cs.length := by
  induction cs generalizing acc gap p with
  | nil =>
      cases h
      exact Nat.le_refl _
  | cons c cs ih =>
      unfold readPlain at h
      split_ifs at h
      · exact Nat.le_succ_of_le (ih h)
      · exact Nat.le_succ_of_le (ih h)
      · cases h
        exact Nat.le_refl _
      · exact Nat.le_succ_of_le (ih h)

/-- A plain scalar takes its first character, unless that is the colon of a value or structures the
flow collection around it. -/
theorem length_readPlain_cons {place : PlainPlace} {acc : List Char} {p : Position} {r : ReadScalar}
    (hword : stopsWord place c rest = false)
    (h : readPlain place acc .none p (c :: rest) = some r) : r.rest.length ≤ rest.length := by
  unfold readPlain at h
  rw [hword] at h
  split_ifs at h with hblank htab hbreak hstop
  · exact length_readPlain h
  · exact length_readPlain h
  · exact absurd hstop (by simp)
  · exact length_readPlain h

theorem length_readQuoted {q : Quote} {acc cs : List Char} {place : QuotedPlace} {p : Position}
    {r : ReadScalar} (h : readQuoted q acc place p cs = some r) : r.rest.length ≤ cs.length := by
  induction cs generalizing acc place p with
  | nil => exact absurd h (by simp [readQuoted])
  | cons c cs ih =>
      have hlater : ∀ {acc place p}, readQuoted q acc place p cs = some r →
          r.rest.length ≤ (c :: cs).length := fun h => Nat.le_succ_of_le (ih h)
      unfold readQuoted at h
      split at h
      · exact hlater h
      · split_ifs at h
        · exact hlater h
        · split at h
          · exact absurd h (by simp)
          · exact hlater h
          · exact hlater h
      · split at h
        · exact absurd h (by simp)
        · split at h
          · split at h
            · exact absurd h (by simp)
            · exact hlater h
          · exact hlater h
      · split_ifs at h
        · exact hlater h
        · exact hlater h
        · exact hlater h
        · cases h
          exact Nat.le_succ _
        · exact hlater h
        · exact hlater h

theorem length_takePlain (hrest : s.rest = c :: rest)
    (hword : ∀ indent, stopsWord ⟨s.inFlow, indent⟩ c rest = false)
    (h : s.takePlain = some next) : next.rest.length ≤ rest.length := by
  obtain ⟨noted, hnote, hread⟩ := Option.bind_eq_some_iff.1 h
  obtain ⟨r, hr, hnext⟩ := Option.bind_eq_some_iff.1 hread
  cases hnext
  obtain ⟨hnoted, hflow⟩ := noteKey_eq_some hnote
  rw [hnoted, hrest, hflow] at hr
  exact length_readPlain_cons (hword _) hr

theorem length_takeQuoted {q : Quote} (hrest : s.rest = c :: rest)
    (h : s.takeQuoted q = some next) : next.rest.length ≤ rest.length := by
  obtain ⟨noted, hnote, hread⟩ := Option.bind_eq_some_iff.1 h
  obtain ⟨r, hr, hnext⟩ := Option.bind_eq_some_iff.1 hread
  cases hnext
  have hlength := length_readQuoted hr
  rw [take, (noteKey_eq_some hnote).1, hrest] at hlength
  exact hlength

theorem length_drop_succ {cs : List Char} (n : Nat) (h : cs = c :: rest) :
    (cs.drop (n + 1)).length ≤ rest.length := by
  rw [h, List.drop_succ_cons, List.length_drop]
  exact Nat.sub_le ..

theorem length_takeMark {t : Token} (hrest : s.rest = c :: rest) (h : s.takeMark t = some next) :
    next.rest.length ≤ rest.length := by
  obtain ⟨dropped, hdrop, hnext⟩ := Option.bind_eq_some_iff.1 h
  cases hnext
  have hdropped := (dropKey_eq_some hdrop).1
  rw [dedent_rest, hrest] at hdropped
  exact length_drop_succ 2 hdropped

theorem length_takeOpening {t : Token} (hrest : s.rest = c :: rest)
    (h : s.takeOpening t = some next) : next.rest.length ≤ rest.length := by
  obtain ⟨noted, hnote, hopen⟩ := Option.bind_eq_some_iff.1 h
  split at hopen
  · exact absurd hopen (by simp)
  · cases hopen
    exact length_drop_succ 0 ((noteKey_eq_some hnote).1.trans hrest)

theorem length_takeClosing {t : Token} (hrest : s.rest = c :: rest)
    (h : s.takeClosing t = some next) : next.rest.length ≤ rest.length := by
  obtain ⟨dropped, hdrop, hnext⟩ := Option.bind_eq_some_iff.1 h
  cases hnext
  exact length_drop_succ 0 ((dropKey_eq_some hdrop).1.trans hrest)

theorem length_takeComma (hrest : s.rest = c :: rest) (h : s.takeComma = some next) :
    next.rest.length ≤ rest.length := by
  obtain ⟨dropped, hdrop, hnext⟩ := Option.bind_eq_some_iff.1 h
  cases hnext
  exact length_drop_succ 0 ((dropKey_eq_some hdrop).1.trans hrest)

theorem length_takeItem (hrest : s.rest = c :: rest) (h : s.takeItem = some next) :
    next.rest.length ≤ rest.length := by
  unfold takeItem at h
  split at h
  · exact absurd h (by simp)
  · obtain ⟨dropped, hdrop, hnext⟩ := Option.bind_eq_some_iff.1 h
    cases hnext
    have hdropped := (dropKey_eq_some hdrop).1
    rw [indentAt_rest, hrest] at hdropped
    exact length_drop_succ 0 hdropped

theorem length_takeKey (hrest : s.rest = c :: rest) (h : s.takeKey = some next) :
    next.rest.length ≤ rest.length := by
  unfold takeKey at h
  split at h
  · exact absurd h (by simp)
  · obtain ⟨dropped, hdrop, hnext⟩ := Option.bind_eq_some_iff.1 h
    cases hnext
    have hdropped := (dropKey_eq_some hdrop).1
    rw [indentAt_rest, hrest] at hdropped
    exact length_drop_succ 0 hdropped

theorem length_takeValue (hrest : s.rest = c :: rest) (h : s.takeValue = some next) :
    next.rest.length ≤ rest.length := by
  unfold takeValue at h
  split at h
  · cases h
    exact length_drop_succ 0 ((setCurrent_rest ..).trans ((indentAt_rest ..).trans hrest))
  · split at h
    · exact absurd h (by simp)
    · cases h
      exact length_drop_succ 0 ((indentAt_rest ..).trans hrest)

/-- Each token takes at least one character. -/
theorem length_takeToken (hrest : r.rest = c :: rest) (h : r.takeToken c rest = some next) :
    next.rest.length ≤ rest.length := by
  unfold takeToken at h
  obtain ⟨-, h⟩ | ⟨-, h⟩ := ite_eq_iff.1 h
  · exact absurd h (by simp)
  obtain ⟨-, h⟩ | ⟨-, h⟩ := ite_eq_iff.1 h
  · exact length_takeMark hrest h
  obtain ⟨-, h⟩ | ⟨-, h⟩ := ite_eq_iff.1 h
  · exact length_takeMark hrest h
  obtain ⟨-, h⟩ | ⟨hopening, h⟩ := ite_eq_iff.1 h
  · exact length_takeOpening hrest h
  obtain ⟨-, h⟩ | ⟨hmapping, h⟩ := ite_eq_iff.1 h
  · exact length_takeOpening hrest h
  obtain ⟨-, h⟩ | ⟨hclosing, h⟩ := ite_eq_iff.1 h
  · exact length_takeClosing hrest h
  obtain ⟨-, h⟩ | ⟨hend, h⟩ := ite_eq_iff.1 h
  · exact length_takeClosing hrest h
  obtain ⟨-, h⟩ | ⟨hcomma, h⟩ := ite_eq_iff.1 h
  · exact length_takeComma hrest h
  obtain ⟨-, h⟩ | ⟨-, h⟩ := ite_eq_iff.1 h
  · exact length_takeItem hrest h
  obtain ⟨-, h⟩ | ⟨-, h⟩ := ite_eq_iff.1 h
  · exact length_takeKey hrest h
  obtain ⟨-, h⟩ | ⟨hvalue, h⟩ := ite_eq_iff.1 h
  · exact length_takeValue hrest h
  obtain ⟨-, h⟩ | ⟨-, h⟩ := ite_eq_iff.1 h
  · exact absurd h (by simp)
  obtain ⟨-, h⟩ | ⟨-, h⟩ := ite_eq_iff.1 h
  · exact absurd h (by simp)
  obtain ⟨-, h⟩ | ⟨-, h⟩ := ite_eq_iff.1 h
  · exact length_takeQuoted hrest h
  obtain ⟨-, h⟩ | ⟨-, h⟩ := ite_eq_iff.1 h
  · exact length_takeQuoted hrest h
  obtain ⟨-, h⟩ | ⟨-, h⟩ := ite_eq_iff.1 h
  · exact absurd h (by simp)
  -- what could stop a plain scalar at its first character is a token of its own
  refine length_takePlain hrest (fun indent => ?_) h
  have hflow : isFlow c = false := by simp [isFlow, hopening, hmapping, hclosing, hend, hcomma]
  rw [stopsWord, hflow, Bool.and_false, Bool.or_false]
  simp only [Bool.and_eq_true, isValueMark, Bool.or_eq_true, not_and, not_or] at hvalue
  cases hcolon : c == ':' with
  | false => rfl
  | true =>
      obtain ⟨hends, hmark⟩ := hvalue hcolon
      rw [Bool.true_and, Bool.eq_false_iff.2 hends, Bool.false_or, Bool.and_eq_false_iff]
      by_cases hin : r.inFlow = true
      · exact .inr (Bool.eq_false_iff.2 (hmark hin).1)
      · exact .inl (Bool.eq_false_iff.2 hin)

/-! ## Between two tokens -/

/-- The state in which the next token is taken: blanks are skipped, keys that came to nothing are
dropped, and blocks are closed. -/
def ready? (s : Cutting) : Option Cutting :=
  s.toToken.refreshKeys.map fun r => r.dedent r.column

/-- The tokens of the whole text from a state in which the next token is taken. -/
def onward (r : Cutting) : Option (List Token) :=
  match r.rest with
  | [] => r.finish
  | c :: rest => (r.takeToken c rest).bind takeAll

theorem refreshKeys_rest (h : s.refreshKeys = some next) : next.rest = s.rest := by
  obtain ⟨possible, -, hflow⟩ := Option.bind_eq_some_iff.1 h
  obtain ⟨flow, -, hnext⟩ := Option.bind_eq_some_iff.1 hflow
  cases hnext
  rfl

/-- A text is cut by taking one token after another. -/
theorem takeAll_eq (s : Cutting) : s.takeAll = s.ready?.bind onward := by
  rw [takeAll, ready?]
  cases hkeys : s.toToken.refreshKeys with
  | none => rfl
  | some kept =>
      simp only [Option.map_some, Option.bind_some, onward]
      cases hrest : (kept.dedent kept.column).rest with
      | nil => rfl
      | cons c rest =>
          simp only
          cases htake : (kept.dedent kept.column).takeToken c rest with
          | none => rfl
          | some next =>
              have htaken := length_takeToken hrest htake
              have hkept : (c :: rest).length ≤ s.rest.length := by
                rw [← hrest, dedent_rest, refreshKeys_rest hkeys]
                exact length_skipBlanks false s.rest
              rw [List.length_cons] at hkept
              exact if_pos (by omega)

/-- Taking one token brings a text to where the next one is taken. -/
theorem onward_of_takeToken (hrest : r.rest = c :: rest) (htake : r.takeToken c rest = some next) :
    r.onward = next.takeAll := by
  rw [onward, hrest]
  exact (congrArg (Option.bind · takeAll) htake).trans (Option.bind_some ..)

end Valuer.Yaml.Cutting
