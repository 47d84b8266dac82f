import Mathlib.Logic.Relation
import Valuer.Proofs.Boundaries
import Valuer.Proofs.ResultLines
import Valuer.Session

set_option autoImplicit false

/-! # Padding of a stream of results

A judge may put lines of white space wherever a line of its stream ends, and carriage returns in
front of any line feed (`Text.Pads`). Neither says anything: blank lines are passed over, and a line
loses all carriage returns at its end before it is looked at, so also the errors keep their texts.
What is read is the same, and so is every run over it (`Strategy.run_of_padded`).

Behind a last line without line feed there is no place for padding. White space there would belong
to that line, and to the text of its error. -/

namespace Valuer

/-! ## Pieces of padding -/

namespace Text

def carriageReturn : UInt8 := 13

/-- The second stream is the first with one piece of padding more. -/
inductive Pads : List UInt8 → List UInt8 → Prop
  /-- A line of white space, or an empty one, where a line ends. -/
  | blankLine (before : List UInt8) (line : Line) (after : List UInt8) (hends : EndsLine before)
      (hclean : lineFeed ∉ line) (hblank : isBlankLine line = true) :
      Pads (before ++ after) (before ++ (line ++ lineFeed :: after))
  /-- A carriage return in front of a line feed. -/
  | carriageReturn (before after : List UInt8) :
      Pads (before ++ lineFeed :: after) (before ++ carriageReturn :: lineFeed :: after)

/-- A carriage return at the end of a line is no part of its text. -/
theorem lineText?_concat_carriageReturn (line : Line) :
    lineText? (line ++ [carriageReturn]) = lineText? line := by
  have hdecode : Utf8.decode? (line ++ [carriageReturn]) = (Utf8.decode? line).map (·.push '\r') :=
    Utf8.decode?_concat (c := '\r') line (by decide)
  rw [lineText?, hdecode, Option.map_map, lineText?]
  congr 1
  funext s
  rw [Function.comp_apply, String.toList_push, trimEnd_append (by simp)]

end Text

/-! ## What is read -/

namespace TestResult

theorem ofLine?_concat_carriageReturn (line : Text.Line) :
    ofLine? (line ++ [Text.carriageReturn]) = ofLine? line := by
  rw [ofLine?, Text.lineText?_concat_carriageReturn, ofLine?]

theorem readAll_of_pads {s t : List UInt8} (h : Text.Pads s t) :
    readAll (Text.lines t) = readAll (Text.lines s) := by
  cases h with
  | blankLine before line after hends hclean hblank =>
      have hskip : readAll (line :: Text.lines after) = readAll (Text.lines after) := by
        rw [readAll_cons, ofLine?_of_isBlankLine hblank, Option.toList_none, List.nil_append]
      rw [hends.lines_append, Text.lines_append_cons hclean, readAll_append, hskip,
        hends.lines_append, readAll_append]
  | carriageReturn before after =>
      -- the carriage return belongs to the line that the line feed ends
      obtain ⟨ls, part, rfl, hls, hpart⟩ := Text.exists_unlines_append before
      have hpadded : Text.lineFeed ∉ part ++ [Text.carriageReturn] := by
        intro hmem
        rcases List.mem_append.1 hmem with hfront | hlast
        · exact hpart hfront
        · exact absurd hlast (by decide)
      have hcut :
          Text.lines (Text.unlines ls ++ part ++ Text.carriageReturn :: Text.lineFeed :: after)
            = ls ++ (part ++ [Text.carriageReturn]) :: Text.lines after := by
        rw [List.append_assoc, List.append_cons, Text.lines_unlines_append hls,
          Text.lines_append_cons hpadded]
      rw [hcut, List.append_assoc, Text.lines_unlines_append hls, Text.lines_append_cons hpart,
        readAll_append, readAll_cons, ofLine?_concat_carriageReturn, ← readAll_cons,
        ← readAll_append]

end TestResult

/-! ## Runs -/

/-- However much padding a stream has, the same is read from it, errors and their texts included,
and every strategy runs over it in the same way: the same hooks are called with the same reports,
the same bytes are sent, and the result is the same. -/
theorem Strategy.run_of_padded {s t : List UInt8} (h : Relation.ReflTransGen Text.Pads s t) :
    TestResult.readAll (Text.lines t) = TestResult.readAll (Text.lines s) ∧
      ∀ {σ : Type} (S : Strategy σ) (ctx : Context) (state : σ),
        S.run ctx state t = S.run ctx state s := by
  have hread : TestResult.readAll (Text.lines t) = TestResult.readAll (Text.lines s) := by
    induction h with
    | refl => rfl
    | tail _ hpads ih => rw [TestResult.readAll_of_pads hpads, ih]
  refine ⟨hread, ?_⟩
  intro σ S ctx state
  rw [Strategy.run, Strategy.run, hread]

/-- A line of a next-line character and a blank, and carriage returns on both lines of results: the
second is still the error that it was, and the run ends with it. -/
theorem Strategy.run_of_padded_error :
    let S : Strategy Unit :=
      { begin := Act.send (.run 1)
        onTestEnd := fun _ => Act.send (.run 2) }
    let s := Utf8.encode "1 OK 5\n2 OK seven\n"
    let t := Utf8.encode "1 OK 5\r\n\u0085 \n2 OK seven\r\r\n"
    Relation.ReflTransGen Text.Pads s t ∧
      (TestResult.readAll (Text.lines t) = TestResult.readAll (Text.lines s) ∧
        S.run {} () t = S.run {} () s) ∧
      TestResult.readAll (Text.lines t)
        = [.ok ⟨1, "OK", 5⟩, .error (.malformed "2 OK seven")] ∧
      (S.run {} () t).result = .error (.malformed "2 OK seven") := by
  intro S s t
  have hfirst : Text.Pads s (Utf8.encode "1 OK 5\r\n2 OK seven\n") :=
    .carriageReturn (Utf8.encode "1 OK 5") (Utf8.encode "2 OK seven\n")
  have hsecond : Text.Pads (Utf8.encode "1 OK 5\r\n2 OK seven\n")
      (Utf8.encode "1 OK 5\r\n2 OK seven\r\n") :=
    .carriageReturn (Utf8.encode "1 OK 5\r\n2 OK seven") []
  have hthird : Text.Pads (Utf8.encode "1 OK 5\r\n2 OK seven\r\n")
      (Utf8.encode "1 OK 5\r\n2 OK seven\r\r\n") :=
    .carriageReturn (Utf8.encode "1 OK 5\r\n2 OK seven\r") []
  have hblank : Text.Pads (Utf8.encode "1 OK 5\r\n2 OK seven\r\r\n") t :=
    .blankLine (Utf8.encode "1 OK 5\r\n") (Utf8.encode "\u0085 ")
      (Utf8.encode "2 OK seven\r\r\n") (by decide +kernel) (by decide +kernel) (by decide +kernel)
  have hpadded : Relation.ReflTransGen Text.Pads s t :=
    (((Relation.ReflTransGen.single hfirst).tail hsecond).tail hthird).tail hblank
  obtain ⟨hread, hrun⟩ := run_of_padded hpadded
  exact ⟨hpadded, ⟨hread, hrun S {} ()⟩, by rfl, by rfl⟩

end Valuer
