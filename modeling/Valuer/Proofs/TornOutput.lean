import Valuer.Proofs.CutMessages

set_option autoImplicit false

/-! # Output that is torn

A message is written piece by piece, and a sink that runs full may stop it at any byte. What counts
is only how many bytes the sink takes (`Sink.Steady.writeEach`): the messages that fit are taken,
the next one in part, and all others are refused. A judge that reads this finds no report that was
not sent. -/

namespace Valuer

/-! ## Writing in pieces -/

namespace Sink

/-- Writes pieces one after another, up to the first that fails. -/
def writeEach (s : Sink) : List (List UInt8) → Sink × Except Error Unit
  | [] => (s, .ok ())
  | piece :: rest =>
      match s.write piece with
      | (s, .ok ()) => s.writeEach rest
      | (s, .error e) => (s, .error e)

/-- What a steady sink with so much room makes of a write, in whichever pieces it comes. -/
structure Takes (s : Sink) (room : Nat) (bs : List UInt8) (written : Sink × Except Error Unit) :
    Prop where
  steady : written.1.Steady
  room_eq : written.1.room = some (room - bs.length)
  bytes_eq : written.1.bytes = s.bytes ++ bs.take room
  outcome_eq : written.2 = if bs.length ≤ room then .ok () else .error (.stream .sinkFull)

variable {s : Sink} {room : Nat}

theorem Steady.takes (hs : s.Steady) (hroom : s.room = some room) (bs : List UInt8) :
    s.Takes room bs (s.write bs) where
  steady := hs.write bs
  room_eq := by rw [room_write, hroom, hs.sound_eq, Option.map_some]
  bytes_eq := by rw [bytes_write, hs.sound_eq, fitting, hroom]
  outcome_eq := by
    rw [hs.outcome_write, fits, hroom, Option.all_some]
    simp only [decide_eq_true_eq]

/-- Pieces are taken as if they came in one. -/
theorem Steady.writeEach (hs : s.Steady) (hroom : s.room = some room)
    (pieces : List (List UInt8)) : s.Takes room pieces.flatten (s.writeEach pieces) := by
  induction pieces generalizing s room with
  | nil => exact ⟨hs, hroom, by simp [Sink.writeEach], by simp [Sink.writeEach]⟩
  | cons piece rest ih =>
      have hlength : (piece :: rest).flatten.length = piece.length + rest.flatten.length := by
        rw [List.flatten_cons, List.length_append]
      have hpiece := hs.takes hroom piece
      unfold Sink.writeEach
      rcases hwrite : s.write piece with ⟨t, outcome⟩
      rw [hwrite] at hpiece
      obtain ⟨hsteady, hleft, hbytes, houtcome⟩ := hpiece
      by_cases hfit : piece.length ≤ room
      · rw [if_pos hfit] at houtcome
        subst houtcome
        obtain ⟨hlast, hroomleft, hwritten, hended⟩ := ih hsteady hleft
        refine ⟨hlast, ?_, ?_, ?_⟩
        · rw [hroomleft, hlength, Nat.sub_sub]
        · rw [hwritten, hbytes, List.take_of_length_le hfit, List.append_assoc, List.flatten_cons,
            List.take_append, List.take_of_length_le hfit]
        · have hiff : rest.flatten.length ≤ room - piece.length
              ↔ piece.length + rest.flatten.length ≤ room := by omega
          simp only [hended, hlength, hiff]
      · -- the sink is full, and what comes after this piece is not written any more
        rw [if_neg hfit] at houtcome
        subst houtcome
        refine ⟨hsteady, ?_, ?_, ?_⟩
        · rw [hleft, hlength]
          exact congrArg some (by omega)
        · rw [hbytes, List.flatten_cons, List.take_append_of_le_length (by omega)]
        · rw [hlength, if_neg (by omega)]

end Sink

/-! ## Messages in pieces -/

namespace Message

/-- A way to write messages in pieces, as a formatter does that hands over each part of a line. -/
structure Cutting where
  pieces : Message → List (List UInt8)
  flatten_pieces : ∀ m, (pieces m).flatten = m.encode

/-- Line by line. -/
instance : Inhabited Cutting where
  default :=
    { pieces := fun m => m.texts.map fun text => Utf8.encode text ++ [Text.lineFeed]
      flatten_pieces := fun m => by rw [encode, Text.unlines, List.flatMap_map]; rfl }

/-- Writes messages one after another, each in its pieces, going on after one that fails. -/
def Cutting.writeAll (cut : Cutting) (s : Sink) : List Message → List (Except Error Unit) × Sink
  | [] => ([], s)
  | m :: rest =>
      let (s, outcome) := s.writeEach (cut.pieces m)
      let (outcomes, s) := cut.writeAll s rest
      (outcome :: outcomes, s)

/-- No message fits into a sink that is full. -/
theorem eq_nil_of_holds_zero {whole lost : List Message} (h : Holds encode 0 whole lost) :
    whole = [] := by
  cases whole with
  | nil => rfl
  | cons m whole =>
      have hfit := h.fit
      have hpositive := List.length_pos_iff.2 m.encode_ne_nil
      rw [List.flatMap_cons, List.length_append] at hfit
      omega

/-- What a sink with so much room makes of messages: it takes those that fit, the first bytes of the
next one, and nothing of all others. -/
theorem Cutting.writeAll_steady (cut : Cutting) {s : Sink} {room : Nat} (hs : s.Steady)
    (hroom : s.room = some room) (ms : List Message) :
    ∃ whole lost, ms = whole ++ lost ∧ Holds encode room whole lost ∧
      (cut.writeAll s ms).1 = whole.map (fun _ => .ok ())
        ++ lost.map (fun _ => .error (.stream .sinkFull)) ∧
      (cut.writeAll s ms).2.bytes = s.bytes ++ (ms.flatMap encode).take room := by
  induction ms generalizing s room with
  | nil => exact ⟨[], [], rfl, ⟨Nat.zero_le room, by simp⟩, rfl, by simp [writeAll]⟩
  | cons m rest ih =>
      obtain ⟨hsteady, hleft, hbytes, houtcome⟩ := hs.writeEach hroom (cut.pieces m)
      rw [cut.flatten_pieces] at hleft hbytes houtcome
      obtain ⟨whole, lost, hrest, hholds, houtcomes, hwritten⟩ := ih hsteady hleft
      have hnext : (cut.writeAll s (m :: rest)).2.bytes
          = s.bytes ++ ((m :: rest).flatMap encode).take room := by
        show (cut.writeAll (s.writeEach (cut.pieces m)).1 rest).2.bytes = _
        rw [hwritten, hbytes, List.flatMap_cons, List.take_append, List.append_assoc]
      have hall : (cut.writeAll s (m :: rest)).1 = (s.writeEach (cut.pieces m)).2
          :: (whole.map (fun _ => .ok ()) ++ lost.map fun _ => .error (.stream .sinkFull)) :=
        congrArg _ houtcomes
      rw [houtcome] at hall
      by_cases hfit : m.encode.length ≤ room
      · rw [if_pos hfit] at hall
        exact ⟨m :: whole, lost, congrArg _ hrest, hholds.cons hfit, hall, hnext⟩
      · have hfull : room - m.encode.length = 0 := by omega
        rw [hfull] at hholds
        obtain rfl := eq_nil_of_holds_zero hholds
        obtain rfl : rest = lost := hrest
        rw [if_neg hfit] at hall
        refine ⟨[], m :: rest, rfl, ⟨Nat.zero_le room, ?_⟩, hall, hnext⟩
        intro next hnext
        obtain rfl := Option.some.inj hnext
        exact Nat.lt_add_left _ (Nat.lt_of_not_le hfit)

end Message

/-! ## Reading what was written -/

/-- A report that is read of a message is that message. -/
theorem Message.eq_finish_of_onWire {m : Message} {report : Report}
    (h : m.onWire = .finish report) : m = .finish report := by
  cases m with
  | run test | comment audience text => exact absurd h (by simp [onWire])
  | finish other => exact h

/-- A report that is read of what is left of a message is that message. -/
theorem Message.eq_finish_of_remnant {torn : Message} {left : List UInt8} {report : Report}
    (h : torn.Remnant left (.ok (.finish report))) : torn = .finish report := by
  cases torn with
  | run test =>
      obtain ⟨t, heq, -⟩ := h _ rfl
      exact absurd heq (by simp)
  | comment audience text =>
      obtain ⟨t, heq, -⟩ := h _ rfl
      exact absurd heq (by simp)
  | finish other =>
      rw [Remnant] at h
      split at h
      · exact (Except.ok.inj h).symm
      · obtain ⟨e, he⟩ := h
        exact absurd he (by simp)

/-- Whatever messages are written to a sink that takes only so many bytes, in whichever pieces: the
leading messages that fit altogether are written with success and every later one fails because the
sink is full, and the sink holds the first bytes of all messages, as many as it takes. A judge that
reads this reads the messages that fit, and then, if any byte of the next one has arrived, one thing
more: an error, or what `Message.Remnant` allows. So it reads no report that was not sent. -/
theorem Message.torn_output_forges_no_report (cut : Cutting) (room : Nat) (ms : List Message) :
    let written := cut.writeAll { room } ms
    let inbound := readAll (Text.lines written.2.bytes)
    (∃ whole lost items, ms = whole ++ lost ∧ Holds encode room whole lost ∧
      written.1 = whole.map (fun _ => .ok ())
        ++ lost.map (fun _ => .error (.stream .sinkFull)) ∧
      written.2.bytes = (ms.flatMap encode).take room ∧
      inbound = whole.map (fun m => .ok m.onWire) ++ items ∧
      match lost.head? with
      | none => items = []
      | some torn =>
          let left := torn.encode.take (room - (whole.flatMap encode).length)
          if left = [] then items = [] else ∃ item, items = [item] ∧ torn.Remnant left item) ∧
    ∀ report, .ok (.finish report) ∈ inbound → .finish report ∈ ms := by
  intro written inbound
  have hsteady : ({ room } : Sink).Steady := rfl
  obtain ⟨whole, lost, rfl, hholds, houtcomes, hbytes⟩ := cut.writeAll_steady hsteady rfl ms
  have hwritten : written.2.bytes = ((whole ++ lost).flatMap encode).take room := hbytes
  let items := readAll (Text.lines
    ((lost.head?.toList.flatMap encode).take (room - (whole.flatMap encode).length)))
  have hinbound : inbound = whole.map (fun m => .ok m.onWire) ++ items := by
    show readAll (Text.lines written.2.bytes) = _
    rw [hwritten, hholds.take_flatMap, readAll_encode]
  have hitems : match lost.head? with
      | none => items = []
      | some torn =>
          let left := torn.encode.take (room - (whole.flatMap encode).length)
          if left = [] then items = [] else ∃ item, items = [item] ∧ torn.Remnant left item := by
    cases lost with
    | nil => simp [items, Text.lines_nil, readAll_nil]
    | cons torn rest =>
        have hleft : room - (whole.flatMap encode).length < torn.encode.length := by
          have hfit := hholds.fit
          have hbeyond := hholds.beyond torn rfl
          omega
        have hsingle : (Option.toList (torn :: rest).head?).flatMap encode = torn.encode :=
          List.append_nil _
        simp only [items, hsingle]
        exact torn.readAll_take_encode hleft
  refine ⟨⟨whole, lost, items, rfl, hholds, houtcomes, hwritten, hinbound, hitems⟩, ?_⟩
  intro report hreport
  rw [hinbound, List.mem_append] at hreport
  rcases hreport with hwhole | htorn
  · obtain ⟨m, hm, hwire⟩ := List.mem_map.1 hwhole
    rw [← eq_finish_of_onWire (Except.ok.inj hwire)]
    exact List.mem_append_left _ hm
  · cases hhead : lost.head? with
    | none =>
        rw [hhead] at hitems
        rw [hitems] at htorn
        exact absurd htorn List.not_mem_nil
    | some torn =>
        rw [hhead] at hitems
        simp only at hitems
        split at hitems
        · rw [hitems] at htorn
          exact absurd htorn List.not_mem_nil
        · obtain ⟨item, hitem, hremnant⟩ := hitems
          rw [hitem, List.mem_singleton] at htorn
          rw [← eq_finish_of_remnant (htorn ▸ hremnant)]
          exact List.mem_append_right _ (List.mem_of_mem_head? hhead)

end Valuer
