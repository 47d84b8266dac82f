import Valuer.Error
import Valuer.Text.Blank
import Valuer.Verdict

set_option autoImplicit false

/-! # The judge log

What a valuer finally reports: the resolved tests in the order in which they were resolved. A log
names each test at most once and holds only codes that stay one field of a line; the two facts are
part of the type, and `push` refuses an entry that would break them. -/

namespace Valuer

/-- One resolved test. -/
structure LogEntry where
  test : UInt32
  /-- The status code as the judge gave it. -/
  code : String
  verdict : Verdict
  score : UInt32
  deriving DecidableEq, Repr

/-- Whether a status code can stand in a log: it is not empty and has no blank and no control. -/
def isToken (code : String) : Bool :=
  code != "" && code.toList.all fun c => !Text.isBlank c && !Text.isControl c

/-- Resolved tests in order, each at most once. -/
structure JudgeLog where
  name : String := ""
  entries : List LogEntry := []
  distinct : (entries.map (·.test)).Nodup := by simp
  tokens : ∀ e ∈ entries, isToken e.code = true := by simp

namespace JudgeLog

/-- Two logs with the same name and entries are the same log. -/
@[ext] theorem ext {a b : JudgeLog} (hname : a.name = b.name) (hentries : a.entries = b.entries) :
    a = b := by
  cases a; cases b
  cases hname; cases hentries
  rfl

instance : DecidableEq JudgeLog := fun a b =>
  if h : a.name = b.name ∧ a.entries = b.entries then .isTrue (ext h.1 h.2)
  else .isFalse fun hab => h (hab ▸ ⟨rfl, rfl⟩)

/-- A log with no entries yet. -/
def empty (name : String) : JudgeLog where
  name := name

instance : Inhabited JudgeLog := ⟨empty ""⟩

/-- The entry of a test. -/
def get? (log : JudgeLog) (test : UInt32) : Option LogEntry :=
  log.entries.find? fun e => e.test == test

/-- The same entries under another name. -/
def rename (log : JudgeLog) (name : String) : JudgeLog :=
  { log with name }

theorem get?_eq_none_iff {log : JudgeLog} {test : UInt32} :
    log.get? test = none ↔ test ∉ log.entries.map (·.test) := by
  simp [get?]

/-- The log with one more entry. An unfit code is refused before a test that is already there. -/
def push (log : JudgeLog) (e : LogEntry) : Except Error JudgeLog :=
  if hcode : isToken e.code = true then
    if hfresh : log.get? e.test = none then
      .ok
        { name := log.name
          entries := log.entries ++ [e]
          distinct := by
            have hnew := get?_eq_none_iff.1 hfresh
            simp only [List.map_append, List.map_cons, List.map_nil]
            refine List.nodup_append.2 ⟨log.distinct, by simp, ?_⟩
            rintro t ht u hu rfl
            simp only [List.mem_singleton] at hu
            exact hnew (hu ▸ ht)
          tokens := by
            intro d hd
            rcases List.mem_append.1 hd with hd | hd
            · exact log.tokens d hd
            · rw [List.mem_singleton.1 hd]; exact hcode }
    else .error (.duplicateTest e.test)
  else .error (.badStatusCode e.code)

/-- The sum of two scores, if it has the width of a score. -/
def addScores (a b : UInt32) : Option UInt32 :=
  if a.toNat + b.toNat < UInt32.size then some (a + b) else none

/-- The sum of the scores of all entries, if it has the width of a score. -/
def totalScore (log : JudgeLog) : Except Error UInt32 :=
  match log.entries.foldlM (fun total e => addScores total e.score) 0 with
  | some total => .ok total
  | none => .error (.complaint (.totalOverflows log.name))

end JudgeLog

end Valuer
