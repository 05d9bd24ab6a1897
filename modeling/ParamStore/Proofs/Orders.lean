import ParamStore.Proofs.Views

/-! The orders that reach the flash. Every call changes its chip by programming half-words and erasing
pages, and by nothing else; its orders are collected along its run. On a chip without faults, whatever
it holds, all of these are within the rules of the flash and are verified, so no call ever reports an
error of the flash. -/
namespace ParamStore

/-- One order to the controller, by an offset of the region. -/
inductive Order where
  | program (offset : Nat) (value : UInt16)
  | erase (offset : Nat)
  deriving DecidableEq, Repr

namespace Order

def run (region : Region) : Order → Action FlashError Unit
  | program offset value => region.programHalfword offset value
  | erase offset => region.erasePage offset

/-- The flash takes the order: offsets are aligned and in range, and what is programmed is erased or
gets cleared. -/
def Legal (region : Region) (chip : Chip) : Order → Prop
  | program offset value => offset % 2 = 0 ∧ offset + 2 ≤ region.length ∧
    (chip.halfwordAt offset = erasedHalfword ∨ value = 0)
  | erase offset => offset % chip.pageSize = 0 ∧ offset + chip.pageSize ≤ region.length

/-- The cells as they are meant to be after the order. -/
def effect (chip : Chip) : Order → Nat → UInt8
  | program offset value => overlay chip.cell offset (halfwordBytes value)
  | erase offset => wipe chip.cell offset (offset + chip.pageSize)

/-- The order is legal, and it is carried out to the letter. -/
structure Obeyed (region : Region) (chip : Chip) (order : Order) : Prop where
  legal : order.Legal region chip
  answered : (order.run region).outcome chip = .ok ()
  verified : ((order.run region).after chip).cell = order.effect chip

end Order

/-- The orders lead from one chip to the other, and each is obeyed when its turn comes. -/
inductive Orders (region : Region) : Chip → List Order → Chip → Prop
  | nil {chip : Chip} : Orders region chip [] chip
  | cons {chip after : Chip} {order : Order} {rest : List Order} (obeyed : order.Obeyed region chip)
    (later : Orders region ((order.run region).after chip) rest after) :
    Orders region chip (order :: rest) after

/-- Run on this chip, the call gives these orders, each of which is obeyed when its turn comes, and does
nothing to the chip but by them. -/
inductive Action.Gives (region : Region) :
    {ε α : Type} → Action ε α → Chip → List Order → Prop
  | pure {ε α : Type} {chip : Chip} (answer : α) : Gives region (pure answer : Action ε α) chip []
  | fail {ε α : Type} {chip : Chip} (cause : ε) : Gives region (.fail cause : Action ε α) chip []
  | observe {ε α : Type} {chip : Chip} (question : Chip → Attempt ε α) :
    Gives region (.observe question) chip []
  | program {chip : Chip} {offset : Nat} {value : UInt16}
    (obeyed : (Order.program offset value).Obeyed region chip) :
    Gives region (region.programHalfword offset value) chip [.program offset value]
  | erasePage {chip : Chip} {offset : Nat} (obeyed : (Order.erase offset).Obeyed region chip) :
    Gives region (region.erasePage offset) chip [.erase offset]
  | bind {ε α β : Type} {action : Action ε α} {next : α → Action ε β} {chip : Chip} {answer : α}
    {first second : List Order} (here : Gives region action chip first)
    (answered : action.outcome chip = .ok answer)
    (later : Gives region (next answer) (action.after chip) second) :
    Gives region (action >>= next) chip (first ++ second)
  /-- A call that fails gives no further orders. -/
  | halt {ε α β : Type} {action : Action ε α} {next : α → Action ε β} {chip : Chip}
    {failure : Failure ε} {orders : List Order} (here : Gives region action chip orders)
    (failed : action.outcome chip = .error failure) : Gives region (action >>= next) chip orders
  | mapError {ε δ α : Type} {f : ε → δ} {action : Action ε α} {chip : Chip} {orders : List Order}
    (given : Gives region action chip orders) : Gives region (action.mapError f) chip orders

variable {region : Region} {chip middle after : Chip} {ε α β : Type}

theorem Orders.append {first second : List Order} (left : Orders region chip first middle)
    (right : Orders region middle second after) : Orders region chip (first ++ second) after := by
  induction left with
  | nil => exact right
  | cons obeyed _ ih => exact .cons obeyed (ih right)

/-- The orders that a call gives lead to the chip that it leaves. -/
theorem Action.Gives.orders {action : Action ε α} {orders : List Order}
    (gives : action.Gives region chip orders) :
    Orders region chip orders (action.after chip) := by
  induction gives with
  | pure | fail => exact .nil
  | observe question =>
    rw [after_observe]
    exact .nil
  | program obeyed | erasePage obeyed => exact .cons obeyed .nil
  | bind here answered later ihHere ihLater =>
    rw [after_bind, answered]
    exact ihHere.append ihLater
  | halt here failed ih =>
    rw [after_bind, failed]
    exact ih
  | mapError given ih =>
    rw [after_mapError]
    exact ih

namespace Region

/-- The region is on the chip, which has such pages. -/
structure Paged (region : Region) (pageSize : Nat) (chip : Chip) : Prop extends
    region.OnChip chip where
  pageSize_eq : chip.pageSize = pageSize
  positive : 0 < pageSize

theorem Paged.keeps {pageSize : Nat} (paged : region.Paged pageSize chip)
    (keeps : chip.Keeps after) : region.Paged pageSize after :=
  ⟨paged.toOnChip.keeps keeps, keeps.pageSize.trans paged.pageSize_eq, paged.positive⟩

/-- Only legal half-words get programmed. -/
theorem OnChip.program_obeyed {offset : Nat} {value : UInt16} (onChip : region.OnChip chip)
    (answered : (region.programHalfword offset value).outcome chip = .ok ()) :
    (Order.program offset value).Obeyed region chip ∧
      chip.Keeps ((region.programHalfword offset value).after chip) := by
  by_cases even : offset % 2 = 0
  case neg => simp [programHalfword, even, Attempt.fail] at answered
  by_cases inside : offset + 2 ≤ region.length
  case neg =>
    simp [programHalfword, even, Action.outcome_bind, address, Nat.lt_of_not_le inside,
      Attempt.fail, Except.bind] at answered
  rcases (programHalfword_ensures onChip value even inside).outcome_cases with
    ⟨_, -, keeps, legal, cells⟩ | ⟨cause, failed, -⟩
  · exact ⟨⟨⟨even, inside, legal⟩, answered, cells⟩, keeps⟩
  · rw [failed] at answered
    cases answered

theorem Paged.erase_obeyed {offset pageSize : Nat} (paged : region.Paged pageSize chip)
    (aligned : offset % pageSize = 0)
    (answered : (region.erasePage offset).outcome chip = .ok ()) :
    (Order.erase offset).Obeyed region chip ∧
      chip.Keeps ((region.erasePage offset).after chip) := by
  obtain ⟨onChip, rfl, positive⟩ := paged
  by_cases inside : offset + chip.pageSize ≤ region.length
  case neg =>
    simp [erasePage, aligned, Action.outcome_bind, address, Nat.lt_of_not_le inside, Attempt.fail,
      Except.bind] at answered
  rcases (erasePage_ensures onChip positive aligned inside).outcome_cases with
    ⟨_, -, keeps, cells⟩ | ⟨cause, failed, -⟩
  · exact ⟨⟨⟨aligned, inside⟩, answered, cells⟩, keeps⟩
  · rw [failed] at answered
    cases answered

end Region

namespace Action

/-- The call works by orders that are obeyed; nothing is said of calls that overflow or fail for a
cause that is not `soft`. -/
def Ordered (region : Region) (pageSize : Nat) (soft : ε → Bool) (action : Action ε α) : Prop :=
  ∀ chip, region.Paged pageSize chip →
    (∀ failure, action.outcome chip = .error failure →
      ∃ cause, failure = .error cause ∧ soft cause = true) →
    chip.Keeps (action.after chip) ∧ ∃ orders, action.Gives region chip orders

variable {pageSize : Nat} {soft : ε → Bool} {action : Action ε α}

theorem ordered_pure (answer : α) : Ordered region pageSize soft (pure answer : Action ε α) :=
  fun chip _ _ => ⟨.refl chip, [], .pure answer⟩

theorem ordered_fail (cause : ε) : Ordered region pageSize soft (fail cause : Action ε α) :=
  fun chip _ _ => ⟨.refl chip, [], .fail cause⟩

theorem ordered_observe (question : Chip → Attempt ε α) :
    (observe question).Ordered region pageSize soft := by
  intro chip _ _
  rw [after_observe]
  exact ⟨.refl chip, [], .observe question⟩

theorem Ordered.bind {next : α → Action ε β} (first : action.Ordered region pageSize soft)
    (rest : ∀ answer, (next answer).Ordered region pageSize soft) :
    (action >>= next).Ordered region pageSize soft := by
  intro chip paged mild
  rw [outcome_bind] at mild
  rw [after_bind]
  cases ended : action.outcome chip with
  | error failure =>
    obtain ⟨keeps, orders, given⟩ := first chip paged (by
      intro other same
      rw [ended] at mild same
      cases same
      exact mild failure rfl)
    exact ⟨keeps, orders, given.halt ended⟩
  | ok answer =>
    rw [ended] at mild
    obtain ⟨keeps, orders, given⟩ := first chip paged (by simp [ended])
    obtain ⟨further, more, later⟩ := rest answer _ (paged.keeps keeps) mild
    exact ⟨keeps.trans further, orders ++ more, given.bind ended later⟩

theorem ordered_observe_bind {question : Chip → Attempt ε α} {next : α → Action ε β}
    (rest : ∀ answer, (next answer).Ordered region pageSize soft) :
    (observe question >>= next).Ordered region pageSize soft :=
  (ordered_observe question).bind rest

/-- None of its errors is spared any more. -/
theorem Ordered.mapError {δ : Type} {f : ε → δ} {softer : δ → Bool}
    (ordered : action.Ordered region pageSize soft) (hard : ∀ cause, softer (f cause) = false) :
    (action.mapError f).Ordered region pageSize softer := by
  intro chip paged mild
  have answered (failure : Failure ε) : action.outcome chip ≠ .error failure := by
    intro ended
    obtain ⟨cause, same, spared⟩ := mild (failure.map f) (by rw [outcome_mapError, ended]; rfl)
    cases failure with
    | error reported =>
      cases same
      rw [hard] at spared
      cases spared
    | overflow => cases same
  obtain ⟨keeps, orders, given⟩ := ordered chip paged fun failure ended =>
    absurd ended (answered failure)
  exact ⟨(after_mapError f action chip) ▸ keeps, orders, given.mapError⟩

end Action

namespace Region

variable {pageSize : Nat}

/-- A call of the region that succeeds has worked by orders alone. -/
abbrev Ordered (region : Region) (pageSize : Nat) (action : Action FlashError α) : Prop :=
  action.Ordered region pageSize fun _ => false

theorem programHalfword_ordered (region : Region) (offset : Nat) (value : UInt16) :
    region.Ordered pageSize (region.programHalfword offset value) := by
  intro chip paged mild
  cases answered : (region.programHalfword offset value).outcome chip with
  | error failure => simpa using mild failure answered
  | ok =>
    obtain ⟨obeyed, keeps⟩ := paged.toOnChip.program_obeyed answered
    exact ⟨keeps, [.program offset value], .program obeyed⟩

theorem erasePage_ordered (region : Region) {offset : Nat} (aligned : offset % pageSize = 0) :
    region.Ordered pageSize (region.erasePage offset) := by
  intro chip paged mild
  cases answered : (region.erasePage offset).outcome chip with
  | error failure => simpa using mild failure answered
  | ok =>
    obtain ⟨obeyed, keeps⟩ := paged.erase_obeyed aligned answered
    exact ⟨keeps, [.erase offset], .erasePage obeyed⟩

theorem programAll_ordered (region : Region) (offset : Nat) (bytes : Bytes) :
    region.Ordered pageSize (region.programAll offset bytes) := by
  fun_induction programAll region offset bytes with
  | case1 offset low high rest ih =>
    exact (region.programHalfword_ordered offset _).bind fun _ => ih
  | case2 => exact Action.ordered_pure ()

theorem write_ordered (region : Region) (offset : Nat) (bytes : Bytes) :
    region.Ordered pageSize (region.write offset bytes) := by
  unfold Region.write
  split
  · exact Action.ordered_fail _
  · exact Action.ordered_observe_bind fun _ => region.programAll_ordered offset bytes

theorem erasePages_ordered (region : Region) {offset : Nat} (aligned : offset % pageSize = 0)
    (count : Nat) : region.Ordered pageSize (region.erasePages pageSize offset count) := by
  induction count generalizing offset with
  | zero => exact Action.ordered_pure ()
  | succ count ih =>
    exact (region.erasePage_ordered aligned).bind fun _ => ih (by simpa using aligned)

/-- The pages are those of the chip at hand. -/
theorem erase_ordered (region : Region) (start stop : Nat) :
    region.Ordered pageSize (region.erase start stop) := by
  let next (size : Nat) : Action FlashError Unit :=
    if start % size ≠ 0 ∨ stop % size ≠ 0 ∨ stop < start then .fail .unaligned
    else if region.length < stop then .fail .outOfBounds
    else region.erasePages size start ((stop - start) / size)
  have rest : region.Ordered pageSize (next pageSize) := by
    simp only [next]
    split
    · exact Action.ordered_fail _
    next fitting =>
      split
      · exact Action.ordered_fail _
      · exact region.erasePages_ordered (by omega) _
  intro chip paged mild
  rw [← paged.pageSize_eq] at rest
  have asked : (Action.observe fun chip => .ok chip.pageSize : Action FlashError Nat).Gives region
      chip [] := .observe _
  obtain ⟨keeps, orders, given⟩ := rest chip (paged.pageSize_eq.symm ▸ paged) mild
  have whole : (Action.observe (fun chip => .ok chip.pageSize) >>= next).Gives region chip
      ([] ++ orders) := asked.bind rfl given
  exact ⟨keeps, orders, whole⟩

end Region

namespace Store

variable {store : Store} {pageSize : Nat}

/-- Whatever a call of the store answers, errors of the flash apart, it works by orders. -/
abbrev Ordered (store : Store) (pageSize : Nat) (action : Action StoreError α) : Prop :=
  action.Ordered store.region pageSize fun cause => !cause.isHardware

theorem run_ordered (store : Store) (commands : List Command) :
    store.Ordered pageSize (store.run commands) := by
  unfold run
  induction commands with
  | nil => exact Action.ordered_pure ()
  | cons command rest ih =>
    refine Action.Ordered.bind ?_ fun _ => ih
    cases command with
    | write offset bytes =>
      exact (store.region.write_ordered offset bytes).mapError fun _ => rfl
    | transfer source target length =>
      have moved (bytes : Bytes) : store.region.Ordered pageSize (store.region.write target bytes) :=
        store.region.write_ordered target bytes
      exact (Action.ordered_observe_bind moved).mapError fun _ => rfl
    | erase start stop => exact (store.region.erase_ordered start stop).mapError fun _ => rfl

theorem pack_ordered (store : Store) (stop : Nat) (records : List Record) (position : Nat) :
    store.Ordered pageSize (store.pack stop records position) := by
  induction records generalizing position with
  | nil => exact Action.ordered_pure _
  | cons record rest ih =>
    refine Action.Ordered.bind ?_ fun _ => Action.ordered_observe_bind ih
    refine Action.ordered_observe_bind fun dataEnd => ?_
    split
    · exact Action.ordered_fail _
    · exact store.run_ordered _

theorem clearSpare_ordered (store : Store) (spare : Segment) :
    store.Ordered pageSize (store.clearSpare spare) := by
  refine Action.ordered_observe_bind fun blank => ?_
  split
  · exact Action.ordered_pure _
  · exact (store.run_ordered _).bind fun _ => Action.ordered_pure _

theorem compact_ordered (store : Store) : store.Ordered pageSize store.compact := by
  refine Action.ordered_observe_bind fun source => Action.ordered_observe_bind fun busy => ?_
  split
  · exact Action.ordered_fail _
  · refine (store.clearSpare_ordered _).bind fun _ => Action.ordered_observe_bind fun log => ?_
    refine (store.pack_ordered _ _ _).bind fun tail => ?_
    exact (store.run_ordered _).bind fun _ => Action.ordered_pure _

theorem makeRoom_ordered (store : Store) (size : UInt16) :
    store.Ordered pageSize (store.makeRoom size) := by
  refine Action.ordered_observe_bind fun segment => Action.ordered_observe_bind fun next => ?_
  split
  · exact Action.ordered_fail _
  · exact store.compact_ordered.bind fun _ => Action.ordered_pure _

theorem write_ordered (store : Store) (parameter : UInt16) (data : Bytes) :
    store.Ordered pageSize (store.write parameter data) := by
  unfold write
  split
  · exact Action.ordered_fail _
  split
  · exact Action.ordered_fail _
  refine Action.ordered_observe_bind fun reserved => ?_
  cases reserved with
  | some log => exact store.run_ordered _
  | none =>
    refine (store.makeRoom_ordered _).bind fun _ => Action.ordered_observe_bind fun again => ?_
    cases again with
    | some log => exact store.run_ordered _
    | none => exact Action.ordered_fail _

theorem remove_ordered (store : Store) (parameter : UInt16) :
    store.Ordered pageSize (store.remove parameter) := by
  unfold remove
  split
  · exact Action.ordered_fail _
  refine Action.ordered_observe_bind fun log => ?_
  split
  · exact Action.ordered_fail _
  · exact store.run_ordered _

theorem recover_ordered (store : Store) : store.Ordered pageSize store.recover := by
  have spare (id : SegmentId) : store.Ordered pageSize (store.recoverSpare id) := by
    refine (store.clearSpare_ordered _).bind fun dirty => ?_
    split
    · exact Action.ordered_pure _
    · exact Action.ordered_pure _
  refine Action.ordered_observe_bind fun first => Action.ordered_observe_bind fun second => ?_
  cases first with
  | false =>
    cases second with
    | false => exact Action.ordered_pure _
    | true => exact spare .a
  | true =>
    cases second with
    | false => exact spare .b
    | true => exact (store.run_ordered _).bind fun _ => Action.ordered_pure _

/-- This is no error of the flash. -/
def NoFlashError (attempt : Attempt StoreError α) : Prop := ∀ cause, attempt ≠ .fail (.flash cause)

theorem NoFlashError.bind {attempt : Attempt StoreError α} {next : α → Attempt StoreError β}
    (first : NoFlashError attempt) (rest : ∀ answer, NoFlashError (next answer)) :
    NoFlashError (attempt >>= next) := by
  intro cause
  cases attempt with
  | ok answer => exact rest answer cause
  | error failure => exact fun failed => first cause (congrArg Except.error (Except.error.inj failed))

theorem noFlashError_ok (answer : α) : NoFlashError (.ok answer) := by
  simp [NoFlashError, Attempt.fail]

theorem noFlashError_fail {cause : StoreError} (soft : cause.isHardware = false) :
    NoFlashError (.fail cause : Attempt StoreError α) := by
  rintro flash ⟨⟩
  cases soft

theorem noFlashError_fitHalfword (value : Nat) :
    NoFlashError (.fitHalfword value : Attempt StoreError Nat) := by
  unfold Attempt.fitHalfword NoFlashError Attempt.fail
  split <;> simp

theorem noFlashError_difference (minuend subtrahend : Nat) :
    NoFlashError (.difference minuend subtrahend : Attempt StoreError Nat) := by
  unfold Attempt.difference NoFlashError Attempt.fail
  split <;> simp

theorem Mounted.log_noFlashError (mounted : store.Mounted chip) : NoFlashError (store.log chip) := by
  rcases mounted.log_cases with ⟨log, holds⟩ | ⟨cause, lost, soft⟩
  · rw [mounted.log_eq_ok_iff.mpr holds]
    exact noFlashError_ok log
  · rw [lost]
    exact noFlashError_fail soft

theorem Mounted.read_noFlashError (mounted : store.Mounted chip) (parameter : UInt16)
    (capacity : Nat) : NoFlashError (store.read chip parameter capacity) := by
  rcases mounted.log_cases with ⟨log, holds⟩ | ⟨cause, lost, soft⟩
  · rw [mounted.read_of_shows ⟨log, holds, rfl⟩, Values.read]
    split
    · split
      · exact noFlashError_fail rfl
      · exact noFlashError_ok _
    · exact noFlashError_fail rfl
  · unfold Store.read
    split
    · exact noFlashError_fail rfl
    · rw [lost]
      exact noFlashError_fail soft

theorem Mounted.contains_noFlashError (mounted : store.Mounted chip) (parameter : UInt16) :
    NoFlashError (store.contains chip parameter) := by
  unfold contains
  split
  · exact noFlashError_ok _
  · exact mounted.log_noFlashError.bind fun log => noFlashError_ok _

theorem Mounted.live_noFlashError (mounted : store.Mounted chip) : NoFlashError (store.live chip) :=
  mounted.log_noFlashError.bind fun _ => noFlashError_ok _

theorem Mounted.forEachLive_noFlashError {σ : Type} (mounted : store.Mounted chip)
    (visit : σ → Header → σ) (state : σ) :
    NoFlashError (store.forEachLive chip visit state).2 := by
  rw [mounted.forEachLive_eq_foldl]
  have listed := mounted.live_noFlashError
  cases found : store.live chip with
  | ok headers => exact noFlashError_ok ()
  | error failure =>
    rw [found] at listed
    exact fun cause failed => listed cause (congrArg Except.error (Except.error.inj failed))

theorem Mounted.stats_noFlashError (mounted : store.Mounted chip) :
    NoFlashError (store.stats chip) := by
  rcases store.active_or_unused chip.cell with ⟨id, active⟩ | unused
  · have placed := mounted.placed id
    have ending : NoFlashError (walk store.region chip (store.segment id).firstRecord
        (store.segment id).stop).ending := by
      rcases walk_ending_cases mounted.onChip placed.inside placed.fits placed.firstRecord_le with
        ⟨tail, ended⟩ | broken
      · rw [ended]
        exact noFlashError_ok tail
      · rw [broken]
        exact noFlashError_fail rfl
    rw [stats, mounted.active_eq active]
    refine (noFlashError_fitHalfword _).bind fun tombstoned => ?_
    refine (noFlashError_fitHalfword _).bind fun live => ending.bind fun tail => ?_
    refine (noFlashError_difference _ _).bind fun used => ?_
    exact (noFlashError_difference _ _).bind fun free => noFlashError_ok _
  · rw [stats, mounted.active_of_unused unused]
    exact noFlashError_fail rfl

/-- The call reports no error of the flash, and what it does to the chip are orders that the flash
obeys. -/
structure Lawful (store : Store) (action : Action StoreError α) (chip : Chip) : Prop where
  noFlashError : NoFlashError (action.outcome chip)
  orders : ∃ orders, action.Gives store.region chip orders ∧
    Orders store.region chip orders (action.after chip)

theorem Ordered.lawful {action : Action StoreError α} {good : α → Chip → Prop}
    {bad : StoreError → Chip → Prop} (ordered : store.Ordered chip.pageSize action)
    (mounted : store.Mounted chip) (ensured : action.Ensures chip good bad)
    (soft : ∀ cause after, bad cause after → cause.isHardware = false) :
    store.Lawful action chip := by
  have paged : store.region.Paged chip.pageSize chip :=
    ⟨mounted.onChip, rfl, Nat.lt_of_lt_of_le (by decide) (mounted.placed .a).word⟩
  have given (mild : ∀ failure, action.outcome chip = .error failure →
      ∃ cause, failure = .error cause ∧ (!cause.isHardware) = true) :
      ∃ orders, action.Gives store.region chip orders ∧
        Orders store.region chip orders (action.after chip) := by
    obtain ⟨-, orders, given⟩ := ordered chip paged mild
    exact ⟨orders, given, given.orders⟩
  rcases ensured.outcome_cases with ⟨answer, outcome, -⟩ | ⟨cause, outcome, failed⟩
  · exact ⟨outcome ▸ noFlashError_ok answer, given (by simp [outcome])⟩
  · have spared := soft cause _ failed
    refine ⟨outcome ▸ noFlashError_fail spared, given ?_⟩
    simpa [outcome, Attempt.fail] using spared

end Store

theorem Call.Failed.soft {store : Store} {call : Call} {cause : StoreError}
    (failed : call.Failed store chip cause after) : cause.isHardware = false := by
  cases failed with
  | unchanged soft => exact soft
  | abandoned => rfl
  | crowded => rfl

namespace Store

variable {store : Store}

theorem lawful_observe {question : Chip → Attempt StoreError α}
    (noError : NoFlashError (question chip)) : store.Lawful (Action.observe question) chip := by
  refine ⟨?_, [], .observe question, (Action.Gives.observe question).orders⟩
  rwa [Action.outcome_observe]

/-- No call gives the flash an order against its rules. On a chip without faults, whatever it holds,
every half-word that is programmed is erased or gets cleared, every offset is aligned and in range,
and every order is verified. -/
theorem calls_lawful (mounted : store.Mounted chip) (faultless : chip.Faultless) :
    (∀ parameter capacity,
      store.Lawful (Action.observe (store.read · parameter capacity)) chip) ∧
    (∀ parameter, store.Lawful (Action.observe (store.contains · parameter)) chip) ∧
    (∀ parameter data, store.Lawful (store.write parameter data) chip) ∧
    (∀ parameter, store.Lawful (store.remove parameter) chip) ∧
    store.Lawful (Action.observe store.stats) chip ∧
    store.Lawful (Action.observe store.live) chip ∧
    (∀ {σ : Type} (visit : σ → Header → σ) (state : σ),
      store.Lawful (Action.observe fun chip => (store.forEachLive chip visit state).2) chip) ∧
    store.Lawful store.compact chip ∧
    store.Lawful store.recover chip ∧
    store.Lawful store.format chip := by
  refine ⟨fun parameter capacity => lawful_observe (mounted.read_noFlashError parameter capacity),
    fun parameter => lawful_observe (mounted.contains_noFlashError parameter),
    fun parameter data => ?_, fun parameter => ?_, lawful_observe mounted.stats_noFlashError,
    lawful_observe mounted.live_noFlashError,
    fun visit state => lawful_observe (mounted.forEachLive_noFlashError visit state), ?_, ?_, ?_⟩
  · exact Ordered.lawful (store.write_ordered parameter data) mounted
      (Call.write_failed mounted faultless parameter data) fun _ _ failed => failed.soft
  · exact Ordered.lawful (store.remove_ordered parameter) mounted
      (Call.remove_failed mounted faultless parameter) fun _ _ failed => failed.soft
  · exact Ordered.lawful store.compact_ordered mounted
      (Call.compact_failed mounted faultless) fun _ _ failed => failed.soft
  · exact Ordered.lawful store.recover_ordered mounted (store.recover_settles mounted)
      fun _ _ balked => absurd faultless.obedient balked.disobedient
  · exact Ordered.lawful (store.run_ordered _) mounted (store.format_ensures mounted)
      fun _ _ interrupted => absurd faultless interrupted.faulty

/-- A compaction that comes upon a corrupt log, and a write that finds no room even after one. -/
theorem calls_lawful_small :
    small.Lawful small.compact tornChip ∧ small.Lawful (small.write 7 [1, 2, 3, 4, 5]) fullChip := by
  obtain ⟨-, -, -, -, -, -, -, compact, -⟩ := calls_lawful tornChip_mounted rfl
  obtain ⟨-, -, write, -⟩ := calls_lawful fullChip_mounted rfl
  exact ⟨compact, write 7 [1, 2, 3, 4, 5]⟩

end Store

end ParamStore
