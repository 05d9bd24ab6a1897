import ParamStore.Host.Request
import ParamStore.Proofs.Ledger
import ParamStore.Proofs.ReportCodec

/-! Conversations with the host. Between the bytes of a request and those of its answer stand the
decoding of words, the store, and the compactions that it needs; the host sees none of this. Its
requests are answered by the ledger alone, byte for byte. -/
namespace ParamStore

/-- What is not a report is dropped; a report is executed and answered. -/
def Store.exchange (store : Store) (message : Bytes) : Action Empty (Option Bytes) :=
  match Report.ofBytes? message with
  | none => return none
  | some request => do
    let response ← store.answer request
    return some response.toBytes

/-- The answers of a device to messages one after the other. -/
def converse (store : Store) : List Bytes → Chip → List (Attempt Empty (Option Bytes))
  | [], _ => []
  | message :: rest, chip =>
    (store.exchange message).outcome chip ::
      converse store rest ((store.exchange message).after chip)

/-- The bytes of an answer: the command, the words given, and zeros for the rest of 15 words. -/
def frame (command : UInt32) (words : List UInt32) : Bytes :=
  (command :: words ++ .replicate (15 - words.length) 0).flatMap wordBytes

namespace Ledger

def statusReply (capacity : Nat) (ledger : Ledger) : List UInt32 :=
  [0, if ledger.active = .a then 0 else 1, .ofNat ledger.used, .ofNat (capacity - ledger.used),
    .ofNat ledger.table.length]

def getReply (ledger : Ledger) (id : UInt16) : List UInt32 :=
  if isValidParameter id then
    match ledger.table.get? id with
    | some value => [0, id.toUInt32, wordOfBytes value, .ofNat value.length]
    | none => [(-1003 : Int32).toUInt32, id.toUInt32]
  else [(-1006 : Int32).toUInt32, id.toUInt32]

def setReply (capacity : Nat) (ledger : Ledger) (id : UInt16) (value : Bytes) : List UInt32 :=
  if isValidParameter id then
    if ledger.table.Admits capacity value then [0] else [(-1005 : Int32).toUInt32]
  else [(-1006 : Int32).toUInt32]

/-- The answer to a message of 64 bytes, and the ledger after it. The command is the first word;
the id is the low half of the third, the value and its length are the next two. -/
def reply (capacity : Nat) (ledger : Ledger) (message : Bytes) : Option Bytes × Ledger :=
  if message.length = 64 then
    let command := Report.wordAt message 0
    let id := (Report.wordAt message 2).toUInt16
    let value := (wordBytes (Report.wordAt message 3)).take (min (Report.wordAt message 4).toNat 4)
    if command = 0x00 then (some (frame command (ledger.statusReply capacity)), ledger)
    else if command = 0x40 then (some (frame command (ledger.getReply id)), ledger)
    else if command = 0x80 then
      (some (frame command (ledger.setReply capacity id value)), ledger.write capacity id value)
    else (some (frame command [2]), ledger)
  else (none, ledger)

def converse (capacity : Nat) : List Bytes → Ledger → List (Option Bytes)
  | [], _ => []
  | message :: rest, ledger =>
    (ledger.reply capacity message).1 :: converse capacity rest (ledger.reply capacity message).2

/-- The ledger after a conversation. -/
def afterwards (capacity : Nat) (messages : List Bytes) (ledger : Ledger) : Ledger :=
  messages.foldl (fun ledger message => (ledger.reply capacity message).2) ledger

end Ledger

/-- A finite map from valid parameters to values that fit into a word. -/
structure Table.Wordwise (table : Table) : Prop where
  distinct : (table.map Entry.parameter).Nodup
  valid : ∀ entry ∈ table, isValidParameter entry.parameter = true
  short : ∀ entry ∈ table, entry.value.length ≤ 4

theorem Table.wordwise_nil : Table.Wordwise [] := ⟨.nil, by simp, by simp⟩

theorem Table.Wordwise.insert {table : Table} (wordwise : table.Wordwise) {parameter : UInt16}
    {value : Bytes} (valid : isValidParameter parameter = true) (short : value.length ≤ 4) :
    (Table.insert table parameter value).Wordwise := by
  have kept : (table.erase parameter).Sublist table := List.filter_sublist
  refine ⟨?_, ?_, ?_⟩
  · rw [Table.insert, List.map_append, List.nodup_append]
    refine ⟨wordwise.distinct.sublist (kept.map _), by simp, ?_⟩
    intro first member second last
    obtain ⟨entry, known, rfl⟩ := List.mem_map.mp member
    have other := (List.mem_filter.mp known).2
    simp only [List.map_cons, List.map_nil, List.mem_singleton] at last
    simpa [last] using other
  · intro entry member
    rcases List.mem_append.mp member with old | new
    · exact wordwise.valid entry (kept.mem old)
    · rw [List.mem_singleton.mp new]
      exact valid
  · intro entry member
    rcases List.mem_append.mp member with old | new
    · exact wordwise.short entry (kept.mem old)
    · rw [List.mem_singleton.mp new]
      exact short

namespace Ledger

variable {capacity : Nat} {ledger : Ledger} {id : UInt16} {value : Bytes}

/-- The status of a SET is that of the write. -/
theorem setReply_of_done
    (done : (ledger.table.answer capacity (.write id value)).1 = .ok .done) :
    ledger.setReply capacity id value = [0] := by
  simp only [Table.answer] at done
  rw [setReply]
  split at done
  next valid =>
    split at done
    next admits => rw [if_pos valid, if_pos admits]
    next => cases done
  next => cases done

theorem setReply_of_failed {cause : StoreError}
    (failed : (ledger.table.answer capacity (.write id value)).1 = .fail cause) :
    ledger.setReply capacity id value = [cause.code.toUInt32] := by
  simp only [Table.answer] at failed
  rw [setReply]
  split at failed
  next valid =>
    split at failed
    next => cases failed
    next refused =>
      cases failed
      rw [if_pos valid, if_neg refused]
      rfl
  next invalid =>
    cases failed
    rw [if_neg invalid]
    rfl

theorem wordwise_write (wordwise : ledger.table.Wordwise) (short : value.length ≤ 4) :
    (ledger.write capacity id value).table.Wordwise := by
  rw [write]
  split
  next accepted =>
    have inserted := wordwise.insert accepted.1 short
    split
    · exact inserted
    split
    · split
      · exact inserted
      · exact wordwise
    · exact wordwise
  next => exact wordwise

theorem wordwise_reply (wordwise : ledger.table.Wordwise) (message : Bytes) :
    (ledger.reply capacity message).2.table.Wordwise := by
  rw [reply]
  split
  · dsimp only
    split
    · exact wordwise
    split
    · exact wordwise
    split
    · apply wordwise_write wordwise
      simp only [List.length_take]
      omega
    · exact wordwise
  · exact wordwise

theorem wordwise_afterwards (wordwise : ledger.table.Wordwise) (messages : List Bytes) :
    (ledger.afterwards capacity messages).table.Wordwise := by
  induction messages generalizing ledger with
  | nil => exact wordwise
  | cons message rest ih => exact ih (wordwise_reply wordwise message)

end Ledger

/-- The four kinds of requests. -/
theorem Request.ofReport_cases (report : Report) :
    (report.command = 0x00 ∧ ofReport report = .status) ∨
    (report.command = 0x40 ∧ ofReport report = .get (report.parameters.get 1).toUInt16) ∨
    (report.command = 0x80 ∧ ofReport report = .set (report.parameters.get 1).toUInt16
      (report.parameters.get 2) (min (report.parameters.get 3).toNat valueSize)) ∨
    (report.command ≠ 0x00 ∧ report.command ≠ 0x40 ∧ report.command ≠ 0x80 ∧
      ofReport report = .unknown report.command) := by
  simp only [ofReport]
  split
  next known => exact .inl ⟨known, rfl⟩
  next known => exact .inr (.inl ⟨known, rfl⟩)
  next known => exact .inr (.inr (.inl ⟨known, rfl⟩))
  next noStatus noGet noSet =>
    exact .inr (.inr (.inr ⟨noStatus, noGet, noSet, rfl⟩))

namespace Store

variable {store : Store} {chip : Chip} {ledger : Ledger}

theorem Booked.status_ensures (booked : store.Booked chip ledger)
    (small : store.layout.segmentSize ≤ 0x40000) {request : Report}
    (asked : Request.ofReport request = .status) :
    (store.answer request).Ensures chip
      (fun response after => response.toBytes =
        frame request.command (ledger.statusReply store.layout.segmentSize) ∧
        store.Booked after ledger)
      (fun _ _ => False) := by
  obtain ⟨tombstoned, told⟩ := booked.stats_eq small
  unfold answer
  rw [asked]
  apply Action.ensures_attempt_bind told
  refine Action.ensures_pure ⟨?_, booked⟩
  cases side : ledger.active <;> simp only [Ledger.statusReply, side] <;> rfl

theorem Booked.get_ensures (booked : store.Booked chip ledger) (wordwise : ledger.table.Wordwise)
    {request : Report} {id : UInt16} (asked : Request.ofReport request = .get id) :
    (store.answer request).Ensures chip
      (fun response after => response.toBytes = frame request.command (ledger.getReply id) ∧
        store.Booked after ledger)
      (fun _ _ => False) := by
  have mounted := booked.mounted
  obtain ⟨log, entries, ready, lists, -⟩ := booked.tidy
  unfold answer
  rw [asked]
  by_cases valid : isValidParameter id = true
  case neg =>
    have reserved : store.read chip id valueSize = .fail .invalidParameter := by
      rw [Store.read, if_pos (by simp [valid])]
    apply Action.ensures_attempt_bind_fail reserved
    refine Action.ensures_pure ⟨?_, booked⟩
    rw [Ledger.getReply, if_neg valid]
    rfl
  have read := mounted.read_eq ready.holds valid valueSize
  rw [ready.entries, ← Table.get?_freshest, lists.fresh] at read
  rw [Ledger.getReply, if_pos valid]
  cases found : ledger.table.get? id with
  | none =>
    rw [found] at read
    apply Action.ensures_attempt_bind_fail read
    exact Action.ensures_pure ⟨rfl, booked⟩
  | some value =>
    have short : value.length ≤ 4 := by
      obtain ⟨entry, listed, rfl⟩ := Option.map_eq_some_iff.mp found
      exact wordwise.short entry (List.mem_of_find?_eq_some listed)
    rw [found] at read
    apply Action.ensures_attempt_bind read
    refine Action.ensures_pure ⟨?_, booked⟩
    have whole : value.take valueSize = value := List.take_of_length_le short
    have complete : decide (valueSize < value.length) = false :=
      decide_eq_false (Nat.not_lt.mpr short)
    simp only [whole, complete]
    rfl

theorem Booked.set_ensures (booked : store.Booked chip ledger) {request : Report} {id : UInt16}
    {word : UInt32} {length : Nat} (asked : Request.ofReport request = .set id word length) :
    (store.answer request).Ensures chip
      (fun response after =>
        response.toBytes = frame request.command
          (ledger.setReply store.layout.segmentSize id ((wordBytes word).take length)) ∧
        store.Booked after
          (ledger.write store.layout.segmentSize id ((wordBytes word).take length)))
      (fun _ _ => False) := by
  have agreed := (booked.represents.write_ensures id ((wordBytes word).take length)).and_after
    (store.Booked · (ledger.write store.layout.segmentSize id ((wordBytes word).take length)))
    (booked.write_after id _)
  have attempted : ((store.write id ((wordBytes word).take length)).attempt :
      Action Empty (Except StoreError Unit)).Ensures chip
      (fun result after =>
        ((result = .ok () ∧ ledger.setReply store.layout.segmentSize id
            ((wordBytes word).take length) = [codeOk.toUInt32]) ∨
          ∃ cause, result = .error cause ∧ ledger.setReply store.layout.segmentSize id
            ((wordBytes word).take length) = [cause.code.toUInt32]) ∧
        store.Booked after
          (ledger.write store.layout.segmentSize id ((wordBytes word).take length)))
      (fun _ _ => False) := by
    apply Action.Ensures.attempt
    apply agreed.mono
    · exact fun _ after done => ⟨.inl ⟨rfl, Ledger.setReply_of_done done.1.answer⟩, done.2⟩
    · exact fun cause after done =>
        ⟨.inr ⟨cause, rfl, Ledger.setReply_of_failed done.1.answer⟩, done.2⟩
  unfold answer
  rw [asked]
  apply attempted.bind
  rintro result after ⟨⟨rfl, told⟩ | ⟨cause, rfl, told⟩, kept⟩
  · rw [told]
    exact Action.ensures_pure ⟨rfl, kept⟩
  · rw [told]
    exact Action.ensures_pure ⟨rfl, kept⟩

/-- One message: what the ledger answers, and the ledger's books. -/
theorem Booked.exchange_ensures (booked : store.Booked chip ledger)
    (wordwise : ledger.table.Wordwise) (small : store.layout.segmentSize ≤ 0x40000)
    (message : Bytes) :
    (store.exchange message).Ensures chip
      (fun answer after => answer = (ledger.reply store.layout.segmentSize message).1 ∧
        store.Booked after (ledger.reply store.layout.segmentSize message).2)
      (fun _ _ => False) := by
  unfold exchange Report.ofBytes? Ledger.reply
  by_cases whole : message.length = 64
  case neg =>
    rw [if_neg whole, if_neg whole]
    exact Action.ensures_pure ⟨rfl, booked⟩
  rw [if_pos whole, if_pos whole]
  dsimp only
  generalize read : (⟨Report.wordAt message 0, .ofFn fun index => Report.wordAt message (index + 1)⟩ :
    Report) = request
  have command : Report.wordAt message 0 = request.command := by rw [← read]
  have parameter (index : Fin 15) :
      Report.wordAt message (index + 1) = request.parameters.get index := by
    have found : request.parameters[index] = request.parameters.get index := rfl
    rw [← found]
    simp [← read]
  have second : Report.wordAt message 2 = request.parameters.get 1 := parameter 1
  have third : Report.wordAt message 3 = request.parameters.get 2 := parameter 2
  have fourth : Report.wordAt message 4 = request.parameters.get 3 := parameter 3
  rw [command, second, third, fourth]
  rcases Request.ofReport_cases request with
    ⟨named, asked⟩ | ⟨named, asked⟩ | ⟨named, asked⟩ | ⟨noStatus, noGet, noSet, asked⟩
  · rw [if_pos named]
    apply (booked.status_ensures small asked).bind
    intro response after done
    exact Action.ensures_pure ⟨congrArg some done.1, done.2⟩
  · rw [if_neg (by rw [named]; decide), if_pos named]
    apply (booked.get_ensures wordwise asked).bind
    intro response after done
    exact Action.ensures_pure ⟨congrArg some done.1, done.2⟩
  · rw [if_neg (by rw [named]; decide), if_neg (by rw [named]; decide), if_pos named]
    apply (booked.set_ensures asked).bind
    intro response after done
    exact Action.ensures_pure ⟨congrArg some done.1, done.2⟩
  · rw [if_neg noStatus, if_neg noGet, if_neg noSet]
    unfold answer
    rw [asked]
    exact Action.ensures_pure ⟨rfl, booked⟩

theorem Booked.exchange_step (booked : store.Booked chip ledger)
    (wordwise : ledger.table.Wordwise) (small : store.layout.segmentSize ≤ 0x40000)
    (message : Bytes) :
    (store.exchange message).outcome chip =
        .ok (ledger.reply store.layout.segmentSize message).1 ∧
      store.Booked ((store.exchange message).after chip)
        (ledger.reply store.layout.segmentSize message).2 := by
  rcases (booked.exchange_ensures wordwise small message).outcome_cases with
    ⟨answer, outcome, rfl, kept⟩ | ⟨_, -, impossible⟩
  · exact ⟨outcome, kept⟩
  · exact impossible.elim

theorem Booked.converse_eq (booked : store.Booked chip ledger)
    (wordwise : ledger.table.Wordwise) (small : store.layout.segmentSize ≤ 0x40000)
    (messages : List Bytes) :
    converse store messages chip =
      (ledger.converse store.layout.segmentSize messages).map .ok := by
  induction messages generalizing chip ledger with
  | nil => rfl
  | cons message rest ih =>
    obtain ⟨answered, kept⟩ := booked.exchange_step wordwise small message
    rw [converse, Ledger.converse, List.map_cons, answered,
      ih kept (Ledger.wordwise_reply wordwise message)]

end Store

theorem length_frame {command : UInt32} {words : List UInt32} (few : words.length ≤ 15) :
    (frame command words).length = 64 := by
  rw [frame, length_flatMap_wordBytes, List.length_append, List.length_cons, List.length_replicate]
  omega

namespace Ledger

variable {capacity : Nat} {ledger : Ledger} {answer : Bytes}

theorem length_of_reply {message : Bytes} (answered : (ledger.reply capacity message).1 = some answer) :
    answer.length = 64 := by
  have got (id : UInt16) : (ledger.getReply id).length ≤ 15 := by
    rw [getReply]
    split
    · split <;> simp
    · simp
  have set (id : UInt16) (value : Bytes) : (ledger.setReply capacity id value).length ≤ 15 := by
    rw [setReply]
    split
    · split <;> simp
    · simp
  rw [reply] at answered
  split at answered
  · dsimp only at answered
    split at answered
    · obtain rfl := Option.some.inj answered
      exact length_frame (by simp [statusReply])
    split at answered
    · obtain rfl := Option.some.inj answered
      exact length_frame (got _)
    split at answered
    · obtain rfl := Option.some.inj answered
      exact length_frame (set _ _)
    · obtain rfl := Option.some.inj answered
      exact length_frame (by simp)
  · cases answered

theorem length_of_mem_converse {messages : List Bytes}
    (member : some answer ∈ ledger.converse capacity messages) : answer.length = 64 := by
  induction messages generalizing ledger with
  | nil => cases member
  | cons message rest ih =>
    rcases List.mem_cons.mp member with here | later
    · exact length_of_reply here.symm
    · exact ih later

end Ledger

variable {store : Store} {chip : Chip}

/-- On a chip without faults, whatever it holds, formatting succeeds, and from then on the device
answers every sequence of messages as an empty ledger does. Its answers have 64 bytes each, and its
table is always a finite map from valid parameters to at most four bytes. -/
theorem converse_after_format_eq (mounted : store.Mounted chip) (faultless : chip.Faultless)
    (small : store.layout.segmentSize ≤ 0x40000) (messages : List Bytes) :
    store.format.outcome chip = .ok () ∧
      converse store messages (store.format.after chip) =
        (Ledger.empty.converse store.layout.segmentSize messages).map .ok ∧
      (∀ answer, some answer ∈ Ledger.empty.converse store.layout.segmentSize messages →
        answer.length = 64) ∧
      (Ledger.empty.afterwards store.layout.segmentSize messages).table.Wordwise := by
  obtain ⟨formatted, booked⟩ := mounted.format_booked faultless
  exact ⟨formatted, booked.converse_eq Table.wordwise_nil small messages,
    fun _ => Ledger.length_of_mem_converse, Ledger.wordwise_afterwards Table.wordwise_nil messages⟩

/-- A short message, a value, its length cut to four, a reserved id, a missing value, the room taken
up and an unknown command. -/
theorem converse_after_format_eq_sample :
    converse Store.sample
      [[1, 2, 3],
        [0x80, 0, 0, 0, 0, 0, 0, 0, 7, 0, 5, 0, 0xDD, 0xCC, 0xBB, 0xAA, 9] ++ .replicate 47 0,
        [0x40, 0, 0, 0, 0, 0, 0, 0, 7] ++ .replicate 55 0,
        [0x80, 0, 0, 0, 0, 0, 0, 0, 0xFF, 0xFF, 0, 0, 1, 0, 0, 0, 1] ++ .replicate 47 0,
        [0x40, 0, 0, 0, 0, 0, 0, 0, 8] ++ .replicate 55 0,
        .replicate 64 0,
        [0x77] ++ .replicate 63 0]
      (Store.sample.format.after Store.sampleChip) =
      List.map .ok
        [none,
          some ([0x80] ++ .replicate 63 0),
          some ([0x40, 0, 0, 0, 0, 0, 0, 0, 7, 0, 0, 0, 0xDD, 0xCC, 0xBB, 0xAA, 4] ++
            .replicate 47 0),
          some ([0x80, 0, 0, 0, 0x12, 0xFC, 0xFF, 0xFF] ++ .replicate 56 0),
          some ([0x40, 0, 0, 0, 0x15, 0xFC, 0xFF, 0xFF, 8] ++ .replicate 55 0),
          some ([0, 0, 0, 0, 0, 0, 0, 0, 0, 0, 0, 0, 12, 0, 0, 0, 20, 0, 0, 0, 1] ++
            .replicate 43 0),
          some ([0x77, 0, 0, 0, 2] ++ .replicate 59 0)] := by
  refine (converse_after_format_eq Store.sample_mounted rfl (by decide) _).2.1.trans ?_
  apply congrArg (List.map Except.ok)
  decide +kernel

end ParamStore
