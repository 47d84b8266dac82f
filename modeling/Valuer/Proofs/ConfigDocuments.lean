import Valuer.Proofs.ConfigFaults
import Valuer.Proofs.Yaml.Documents
import Valuer.Proofs.Yaml.Integers
import Valuer.Program

set_option autoImplicit false

/-! # Configurations that were written

The document of a configuration is the mapping of its fields that are there, so what is read from it
is the configuration again, whatever its name is and whatever tests it lists. Only its own check can
refuse it (`Config.ofText_document`). What the program prints about a configuration file is
therefore a configuration file that it prints in the same way. -/

namespace Valuer.Config

/-! ## The document as a mapping -/

/-- The value of a list of tests. -/
def testsValue (tests : List UInt32) : Yaml.Value :=
  .list (tests.map fun test => Text.decimal test.toNat)

/-- The value of a score. -/
def scoreValue (score : UInt32) : Yaml.Value :=
  .word (Text.decimal score.toNat)

/-- The entries of the fields that are there. -/
def entries (c : Config) : List Yaml.Entry :=
  ⟨Field.name.key, .text c.name⟩
    :: (c.tests.map fun tests => ⟨Field.tests.key, testsValue tests⟩).toList
    ++ [⟨Field.stopOnFailure.key, .word (toString c.stopOnFailure)⟩]
    ++ (c.testScore.map fun score => ⟨Field.testScore.key, scoreValue score⟩).toList

/-- A line of a document, with its line break. -/
def lineChars (line : String) : List Char :=
  line.toList ++ ['\n']

theorem lineChars_word (key word : String) :
    lineChars (key ++ ": " ++ word) = Yaml.Entry.chars ⟨key, .word word⟩ := by
  simp [lineChars, Yaml.Entry.chars, Yaml.Value.chars]

theorem lineChars_item (word : String) : lineChars ("  - " ++ word) = Yaml.itemLine word := by
  simp [lineChars, Yaml.itemLine]

/-- The lines of a list of tests are those of an entry. -/
theorem lineChars_testLines (tests : Option (List UInt32)) :
    (testLines tests).flatMap lineChars
      = (tests.map fun tests => (⟨Field.tests.key, testsValue tests⟩ : Yaml.Entry)).toList.flatMap
          Yaml.Entry.chars := by
  match tests with
  | none => rfl
  | some [] => rfl
  | some (test :: tests) =>
      have hitems : ((test :: tests).map fun test => s!"  - {test}").flatMap lineChars
          = ((test :: tests).map fun test => Text.decimal test.toNat).flatMap Yaml.itemLine := by
        rw [List.flatMap_map, List.flatMap_map]
        exact List.flatMap_congr fun test _ => lineChars_item (Text.decimal test.toNat)
      rw [testLines, List.flatMap_cons, hitems]
      · simp [lineChars, Yaml.Entry.chars, testsValue, Yaml.Value.chars, Field.key]
      · exact List.cons_ne_nil _ _

/-- The document of a configuration has an entry for each field that is there. -/
theorem document_eq (c : Config) :
    c.document = String.ofList (Yaml.documentChars c.entries) := by
  have hname : lineChars ("name: " ++ Yaml.written c.name)
      = Yaml.Entry.chars ⟨Field.name.key, .text c.name⟩ :=
    lineChars_word Field.name.key (Yaml.written c.name)
  have hstop : lineChars (s!"stopOnFailure: {c.stopOnFailure}")
      = Yaml.Entry.chars ⟨Field.stopOnFailure.key, .word (toString c.stopOnFailure)⟩ :=
    lineChars_word Field.stopOnFailure.key (toString c.stopOnFailure)
  have hscore : ((c.testScore.map fun score => s!"testScore: {score}").toList.flatMap lineChars)
      = (c.testScore.map fun score =>
          (⟨Field.testScore.key, scoreValue score⟩ : Yaml.Entry)).toList.flatMap
            Yaml.Entry.chars := by
    cases c.testScore with
    | none => rfl
    | some score =>
        have hline : lineChars (s!"testScore: {score}")
            = Yaml.Entry.chars ⟨Field.testScore.key, scoreValue score⟩ :=
          lineChars_word Field.testScore.key (Text.decimal score.toNat)
        simp only [Option.map_some, Option.toList_some, List.flatMap_singleton, hline]
  have hlines : c.document.toList = c.documentLines.flatMap lineChars := by
    rw [document, String.toList_join, List.flatMap_map]
    exact List.flatMap_congr fun line _ => String.toList_append
  apply String.toList_inj.1
  rw [hlines, String.toList_ofList, Yaml.documentChars, documentLines, entries]
  simp only [List.flatMap_append, List.flatMap_cons, List.flatMap_nil, hname, lineChars_testLines,
    hstop, hscore, List.cons_append]
  simp [lineChars]

theorem isWord_toString (b : Bool) : Yaml.IsWord (toString b).toList := by
  cases b <;> exact ⟨by decide, List.all_eq_true.1 (by decide)⟩

theorem isWord_key (f : Field) : Yaml.IsWord f.key.toList := by
  cases f <;> exact ⟨by decide, List.all_eq_true.1 (by decide)⟩

/-- The keys of the fields are words that can be told to be keys. -/
theorem plain_of_field (f : Field) {v : Yaml.Value} (hv : v.Plain) :
    Yaml.Entry.Plain ⟨f.key, v⟩ := by
  have hshort : f.key.length ≤ Yaml.Cutting.keyLength := by cases f <;> decide
  exact ⟨isWord_key f, hshort, hv⟩

/-- Whatever a configuration holds, its entries can be read back. -/
theorem plain_of_mem_entries {c : Config} {e : Yaml.Entry} (h : e ∈ c.entries) : e.Plain := by
  simp only [entries, List.cons_append, List.mem_cons, List.mem_append, Option.mem_toList,
    Option.map_eq_some_iff, List.not_mem_nil, or_false] at h
  rcases h with rfl | ((⟨tests, -, rfl⟩ | rfl) | ⟨score, -, rfl⟩)
  · exact plain_of_field .name trivial
  · refine plain_of_field .tests fun w hw => ?_
    obtain ⟨test, -, rfl⟩ := List.mem_map.1 hw
    exact Yaml.isWord_decimal test.toNat
  · exact plain_of_field .stopOnFailure (isWord_toString _)
  · exact plain_of_field .testScore (Yaml.isWord_decimal _)

/-! ## The fields of a mapping -/

theorem wordOf?_decimal (n : UInt32) :
    wordOf? (.scalar true (Text.decimal n.toNat)) = some n := by
  have hsmall : n.toNat < UInt32.size := n.toNat_lt_size
  have hrange : 0 ≤ (n.toNat : Int) ∧ (n.toNat : Int) < UInt32.size := by omega
  rw [wordOf?, Yaml.integer?_decimal, Option.filter_some_pos (by simpa using hrange)]
  simp

theorem testsOf?_decimals (tests : List UInt32) :
    testsOf? (.sequence (tests.map fun test => .scalar true (Text.decimal test.toNat)))
      = some tests := by
  rw [testsOf?]
  induction tests with
  | nil => rfl
  | cons test tests ih =>
      rw [List.map_cons, List.mapM_cons, wordOf?_decimal, ih]
      rfl

/-- A number is not one of the words for nothing. -/
theorem optionOf?_decimal (n : UInt32) :
    optionOf? wordOf? (.scalar true (Text.decimal n.toNat)) = some (some n) := by
  have hdigits := (Text.decimal n.toNat).toList.all_eq_true.2 fun c hc =>
    Text.isDigit_of_mem_decimal hc
  unfold optionOf?
  split
  · next heq =>
      rw [(Yaml.Node.scalar.inj heq).2] at hdigits
      exact absurd hdigits (by decide)
  · next heq =>
      rw [(Yaml.Node.scalar.inj heq).2] at hdigits
      exact absurd hdigits (by decide)
  · rw [wordOf?_decimal]
    rfl

theorem flagOf?_toString (b : Bool) : flagOf? (.scalar true (toString b)) = some b := by
  cases b <;> rfl

theorem ofKey?_key (f : Field) : Field.ofKey? f.key = some f := by
  cases f <;> rfl

/-- An entry with the key of a field that was not seen yet sets the field. -/
theorem ofEntries?_cons {seen : List Field} {c d : Config} {f : Field} {v : Yaml.Value}
    (hseen : f ∉ seen) (hset : setField? c v.node f = some d) (rest : List Yaml.Entry) :
    ofEntries? seen c ((⟨f.key, v⟩ :: rest : List Yaml.Entry).map Yaml.Entry.node)
      = ofEntries? (f :: seen) d (rest.map Yaml.Entry.node) := by
  rw [List.map_cons, Yaml.Entry.node, ofEntries?]
  simp only [nameOf?, Option.bind_eq_bind, Option.bind_some, ofKey?_key, if_neg hseen, hset]

/-- A list of tests is set as it was listed. -/
theorem setField?_tests (c : Config) (tests : List UInt32) :
    setField? c (testsValue tests).node .tests = some { c with tests := some tests } := by
  have hnode : (testsValue tests).node
      = .sequence (tests.map fun test => .scalar true (Text.decimal test.toNat)) := by
    rw [testsValue, Yaml.Value.node, List.map_map]
    rfl
  rw [setField?, hnode]
  show ((testsOf? _).map some).map _ = _
  rw [testsOf?_decimals]
  rfl

theorem setField?_testScore (c : Config) (score : UInt32) :
    setField? c (scoreValue score).node .testScore = some { c with testScore := some score } := by
  rw [setField?, scoreValue, Yaml.Value.node, optionOf?_decimal]
  rfl

theorem setField?_stopOnFailure (c : Config) (b : Bool) :
    setField? c (Yaml.Value.word (toString b)).node .stopOnFailure
      = some { c with stopOnFailure := b } := by
  rw [setField?, Yaml.Value.node, flagOf?_toString]
  rfl

/-- The mapping of a configuration is the configuration. -/
theorem ofNode?_entries (c : Config) :
    ofNode? (.mapping (c.entries.map Yaml.Entry.node)) = some c := by
  obtain ⟨name, tests, stop, score⟩ := c
  rw [ofNode?, entries, List.cons_append, List.cons_append,
    ofEntries?_cons (d := { name }) List.not_mem_nil rfl]
  cases tests <;> cases score <;>
    simp only [Option.map_none, Option.map_some, Option.toList_none, Option.toList_some,
      List.nil_append, List.append_nil, List.cons_append]
  · rw [ofEntries?_cons (by decide) (setField?_stopOnFailure ..)]
    rfl
  · rw [ofEntries?_cons (by decide) (setField?_stopOnFailure ..),
      ofEntries?_cons (by decide) (setField?_testScore ..)]
    rfl
  · rw [ofEntries?_cons (by decide) (setField?_tests ..),
      ofEntries?_cons (by decide) (setField?_stopOnFailure ..)]
    rfl
  · rw [ofEntries?_cons (by decide) (setField?_tests ..),
      ofEntries?_cons (by decide) (setField?_stopOnFailure ..),
      ofEntries?_cons (by decide) (setField?_testScore ..)]
    rfl

/-! ## Reading the document back -/

theorem ofNode?_document (c : Config) :
    (Yaml.Node.ofText? c.document).bind ofNode? = some c := by
  rw [document_eq, Yaml.Node.ofText?_document (by simp [entries]) fun e => plain_of_mem_entries,
    Option.bind_some, ofNode?_entries]

/-- Only its own check refuses a configuration that was written. -/
theorem ofText_document (c : Config) :
    ofText c.document
      = match c.check with
        | .ok () => .ok c
        | .error fault => .error (.invalid fault) := by
  cases hcheck : c.check with
  | ok _ => exact ofText_eq_ok_iff.2 ⟨ofNode?_document c, hcheck⟩
  | error fault => exact ofText_eq_invalid_iff.2 ⟨c, ofNode?_document c, hcheck⟩

/-! ## What is read back and printed -/

/-- A file is printed as the configuration that it holds. -/
theorem perform_checkConfig {around : Surroundings} {path text : String} {c : Config}
    (hfile : around.files path = .ok (Utf8.encode text)) (h : ofText text = .ok c) :
    (Command.checkConfig path).perform around = { stdout := Utf8.encode c.document } := by
  have hread : readConfig (around.files path) = .ok c := by
    rw [hfile, readConfig, Utf8.decode?_encode]
    show (ofText text).mapError _ = _
    rw [h]
    rfl
  rw [Command.perform, hread]

/-- A configuration is read back from its document if no test is zero or listed twice, and otherwise
the document is refused for the fault that the check finds. What is accepted as a configuration,
however it was written, is printed as a document that is accepted as the same configuration, and
the file with that document is printed in the same way. -/
theorem document_is_read_back :
    (∀ c : Config,
      ((∀ tests, c.tests = some tests → 0 ∉ tests ∧ tests.Nodup) → ofText c.document = .ok c) ∧
      ((¬ ∀ tests, c.tests = some tests → 0 ∉ tests ∧ tests.Nodup) →
        ∃ fault, c.check = .error fault ∧ ofText c.document = .error (.invalid fault))) ∧
    ∀ text c, ofText text = .ok c → ofText c.document = .ok c ∧
      ∀ (around : Surroundings) (path : String),
        around.files path = .ok (Utf8.encode text) ∨
          around.files path = .ok (Utf8.encode c.document) →
        (Command.checkConfig path).perform around = { stdout := Utf8.encode c.document } := by
  refine ⟨fun c => ⟨fun hvalid => ?_, fun hinvalid => ?_⟩, fun text c htext => ?_⟩
  · rw [ofText_document, c.check_eq_ok_iff.2 hvalid]
  · cases hcheck : c.check with
    | ok _ => exact absurd (c.check_eq_ok_iff.1 hcheck) hinvalid
    | error fault => exact ⟨fault, rfl, by rw [ofText_document, hcheck]⟩
  · have hback : ofText c.document = .ok c := by rw [ofText_document, check_of_ofText htext]
    refine ⟨hback, fun around path hfile => ?_⟩
    rcases hfile with hfile | hfile
    · exact perform_checkConfig hfile htext
    · exact perform_checkConfig hfile hback

/-- A name that has to be quoted and an empty list, a test that is listed twice, and a file that is
written in another way than it is printed. -/
theorem document_is_read_back_of_odd_configs :
    let odd : Config := { name := "- \"null\": \n# ", tests := some [], testScore := some 0 }
    let twice : Config := { tests := some [3, 3] }
    let text := "\x7btests: [+0x2, 1], name: no, other: []\x7d"
    let plain : Config := { name := "no", tests := some [2, 1] }
    ofText odd.document = .ok odd ∧
      ofText twice.document = .error (.invalid (.listedTwice 3)) ∧
      ofText text = .ok plain ∧ ofText plain.document = .ok plain := by
  intro odd twice text plain
  have htwice : ∃ fault, twice.check = .error fault ∧
      ofText twice.document = .error (.invalid fault) :=
    (document_is_read_back.1 twice).2 fun h => absurd (h [3, 3] rfl) (by decide)
  obtain ⟨fault, hcheck, hrefused⟩ := htwice
  have hfault : twice.check = .error (.listedTwice 3) := by rfl
  obtain rfl : Fault.listedTwice 3 = fault := Except.error.inj (hfault.symm.trans hcheck)
  have htext : ofText text = .ok plain := by decide +kernel
  refine ⟨(document_is_read_back.1 odd).1 fun tests h => ?_, hrefused, htext,
    (document_is_read_back.2 text plain htext).1⟩
  obtain rfl : [] = tests := by simpa [odd] using h
  exact ⟨by decide, by decide⟩

end Valuer.Config
