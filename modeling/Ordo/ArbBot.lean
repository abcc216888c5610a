import Mathlib.Algebra.GroupWithZero.Nat
import Mathlib.Algebra.Ring.Int.Defs
import Mathlib.Data.List.Sort
import Mathlib.Tactic.Common

/-!
# The arbitrage bot

One scan at a time reads the wallet's balance, looks for a round trip, and if every gate
lets it through sends one transaction and asks for its receipt, thirty times at most.  What
gas it cost is counted in the process, and on disk by a line of the ledger file, from which
a restarted process counts anew.

The chain includes a transaction when it will, watched or not.  A reply may be lost after
the transaction was accepted, a balance may be read of an upstream that lags, and a crash
may tear the line that is being written; the next line then continues the torn one.
-/

namespace Ordo

namespace ArbBot

structure Config where
  gasReserve : Int
  maxNotional : Option Int
  dailyGasCap : Nat

/-- 24 hours. -/
def DAY : Int := 86400000

/-- `parseEther("0.0002")` -/
def dustFloor : Int := 200000000000000

/-- How often a receipt is asked for. -/
def POLLS : Nat := 30

/-! ### The ledger file -/

inductive Kind where
  | fire
  | won
  | reverted
  | lost
  deriving DecidableEq

structure LedgerEvent where
  kind : Kind
  t : Int
  gasWei : Nat := 0
  deriving DecidableEq

structure GasEntry where
  time : Int
  wei : Nat
  deriving DecidableEq

/-- How the file ends: with a whole line, with a part of one, or with one that lacks only
its end. -/
inductive Tail where
  | clean
  | torn
  | unended (e : LedgerEvent)
  deriving DecidableEq

/-- The lines of the file, where `none` is one that does not parse. -/
structure LedgerFile where
  lines : List (Option LedgerEvent) := []
  tail : Tail := .clean
  deriving DecidableEq

/-- How far an `appendFileSync` gets. -/
inductive Write where
  | whole
  | unended
  | torn
  | failed
  deriving DecidableEq

/-- `parseLedger` of the file. -/
def LedgerFile.replay (f : LedgerFile) : List LedgerEvent :=
  f.lines.filterMap id ++
    match f.tail with
    | .unended e => [e]
    | _ => []

/-- A line is appended to what is there: after a torn line it continues that one. -/
def LedgerFile.append (f : LedgerFile) (e : LedgerEvent) : Write → LedgerFile
  | .whole => ⟨f.lines ++ [if f.tail = .clean then some e else none], .clean⟩
  | .unended => { f with tail := if f.tail = .clean then .unended e else .torn }
  | .torn => { f with tail := .torn }
  | .failed => f

/-- What an event says was spent on gas. -/
def LedgerEvent.spend (e : LedgerEvent) : Option GasEntry :=
  if e.kind = .fire then none else some ⟨e.t, e.gasWei⟩

/-- The entries that seed the breaker of a process that starts. -/
def LedgerFile.seed (f : LedgerFile) (now : Int) : List GasEntry :=
  ((f.replay.filterMap LedgerEvent.spend).filter fun g => now - DAY < g.time).mergeSort
    fun a b => a.time ≤ b.time

/-! ### States -/

/-- A transaction that was included, and the wallet around it. -/
structure Included where
  time : Int
  success : Bool
  gasUsed : Nat
  gasPrice : Nat
  before : Int
  after : Int
  deriving DecidableEq

def Included.gasPaid (r : Included) : Nat := r.gasUsed * r.gasPrice

/-- An accepted transaction, as the network has it. -/
inductive Flight where
  | pending
  | included (r : Included)
  | dropped
  deriving DecidableEq

inductive Halt where
  | undelivered
  | short (missing : Int)
  deriving DecidableEq

/-- Where the scan stands. -/
inductive Phase where
  | idle
  | scanning
  /-- Every gate is passed, and the transaction is about to be sent. -/
  | cleared
  | polling (left : Nat) (flight : Flight)
  /-- The receipt says success, and the balance is asked for. -/
  | settling (r : Included) (gasWei : Nat)
  | recording (kind : Kind) (r : Included) (gasWei : Nat)
  deriving DecidableEq

structure Bot where
  now : Int
  phase : Phase := .idle
  halted : Option Halt := none
  lastBalance : Option Int := none
  maxFeePerGas : Nat := 2000000000
  gasLedger : List GasEntry := []
  file : LedgerFile := {}
  balance : Int
  /-- Every transaction of the wallet that was included. -/
  mined : List Included := []
  /-- Accepted transactions whose receipts nobody asks for. -/
  loose : List Flight := []
  deriving DecidableEq

/-! ### Events -/

/-- What comes of the quotes. -/
inductive Verdict where
  | nothing
  /-- It would revert, or its delivery cannot be proved. -/
  | gone
  | undelivered
  /-- It does not clear its gas and the floor. -/
  | thin
  | clears
  deriving DecidableEq

inductive Reply where
  /-- No transaction is accepted: the nonce is not read, or the send refused. -/
  | refused
  | lost
  /-- The hash arrives, and the fire is recorded. -/
  | named (w : Write)
  deriving DecidableEq

inductive Event where
  | elapse (ms : Nat)
  | refreshGas (price : Nat)
  /-- The status page asks what was burned. -/
  | status
  /-- Something else moves the balance of the wallet. -/
  | moves (wei : Int)
  | tick (read : Option Int)
  | judge (v : Verdict)
  | send (r : Reply)
  /-- The watched transaction is included, or one that is not watched. -/
  | mine (loose : Option Nat) (success : Bool) (gasUsed gasPrice : Nat) (gained : Int)
  | drop (loose : Option Nat)
  /-- The receipt is asked for; it may lack the price. -/
  | poll (answered priced : Bool)
  | balanceRead (after : Option Int)
  | record (w : Write)
  /-- The process dies and another starts. -/
  | restart
  deriving DecidableEq

/-! ### Steps -/

/-- `gasBurnedToday` sheds what is over a day old from the front of the ledger. -/
def prune (s : Bot) : Bot :=
  { s with gasLedger := s.gasLedger.dropWhile fun g => g.time < s.now - DAY }

/-- What is left in the ledger. -/
def burned (s : Bot) : Nat := (s.gasLedger.map (·.wei)).sum

def tradable (cfg : Config) (bal : Int) : Int :=
  let free := if cfg.gasReserve < bal then bal - cfg.gasReserve else 0
  match cfg.maxNotional with
  | some limit => if limit < free then limit else free
  | none => free

def judge (cfg : Config) (s : Bot) (v : Verdict) : Bot :=
  let idle := { s with phase := .idle }
  if v = .nothing ∨ s.halted.isSome then idle
  else
    match v with
    | .undelivered => { idle with halted := some .undelivered }
    | .clears =>
        let s := prune s
        if cfg.dailyGasCap ≤ burned s then { s with phase := .idle }
        else { s with phase := .cleared }
    | _ => idle

def send (s : Bot) : Reply → Bot
  | .refused => { s with phase := .idle }
  | .lost => { s with phase := .idle, loose := s.loose ++ [.pending] }
  | .named w =>
      let s := { s with file := s.file.append ⟨.fire, s.now, 0⟩ w }
      -- a write that fails throws, and the receipt is never asked for
      if w = .whole then { s with phase := .polling POLLS .pending }
      else { s with phase := .idle, loose := s.loose ++ [.pending] }

/-- The transaction as it is included now. -/
def included (s : Bot) (success : Bool) (gasUsed gasPrice : Nat) (gained : Int) : Included :=
  ⟨s.now, success, gasUsed, gasPrice, s.balance,
    s.balance + (if success then gained else 0) - (gasUsed * gasPrice : Nat)⟩

/-- The network has something to say of a pending transaction. -/
def resolve (s : Bot) (loose : Option Nat) (f : Flight) : Option Bot :=
  match loose with
  | none =>
      match s.phase with
      | .polling left .pending => some { s with phase := .polling left f }
      | _ => none
  | some i =>
      match s.loose[i]? with
      | some .pending => some { s with loose := s.loose.set i f }
      | _ => none

def poll (s : Bot) (answered priced : Bool) : Bot :=
  match s.phase with
  | .polling left flight =>
      match flight, answered with
      | .included r, true =>
          let gasWei := r.gasUsed * (if priced then r.gasPrice else s.maxFeePerGas)
          { s with
            gasLedger := s.gasLedger ++ [⟨s.now, gasWei⟩]
            phase := if r.success then .settling r gasWei else .recording .reverted r gasWei }
      | _, _ =>
          if left ≤ 1 then { s with phase := .idle, loose := s.loose ++ [flight] }
          else { s with phase := .polling (left - 1) flight }
  | _ => s

/-- A balance that cannot be read counts as zero. -/
def settle (s : Bot) (after : Option Int) : Bot :=
  match s.phase with
  | .settling r gasWei =>
      match s.lastBalance with
      | some before =>
          if 0 < after.getD 0 ∧ after.getD 0 < before - gasWei then
            { s with
              halted := some (.short (before - gasWei - after.getD 0))
              phase := .recording .lost r gasWei }
          else { s with phase := .recording .won r gasWei }
      | none => { s with phase := .recording .won r gasWei }
  | _ => s

/-- The transaction that is watched is watched no more. -/
def unwatched : Phase → List Flight
  | .polling _ flight => [flight]
  | _ => []

def step (cfg : Config) (s : Bot) : Event → Bot
  | .elapse ms => { s with now := s.now + ms }
  | .refreshGas price => { s with maxFeePerGas := 2 * price }
  | .status => prune s
  | .moves wei => { s with balance := s.balance + wei }
  | .tick read =>
      match s.phase, read with
      | .idle, some bal =>
          let s := { s with lastBalance := some bal }
          if tradable cfg bal < dustFloor then s else { s with phase := .scanning }
      | _, _ => s
  | .judge v => if s.phase = .scanning then judge cfg s v else s
  | .send r => if s.phase = .cleared then send s r else s
  | .mine loose success gasUsed gasPrice gained =>
      let r := included s success gasUsed gasPrice gained
      match resolve s loose (.included r) with
      | some s' => { s' with balance := r.after, mined := s.mined ++ [r] }
      | none => s
  | .drop loose => (resolve s loose .dropped).getD s
  | .poll answered priced => poll s answered priced
  | .balanceRead after => settle s after
  | .record w =>
      match s.phase with
      | .recording kind _ gasWei =>
          { s with file := s.file.append ⟨kind, s.now, gasWei⟩ w, phase := .idle }
      | _ => s
  | .restart =>
      { s with
        phase := .idle
        halted := none
        lastBalance := none
        maxFeePerGas := 2000000000
        gasLedger := s.file.seed s.now
        loose := s.loose ++ unwatched s.phase }

/-- A bot that has sent nothing yet, over a file without lines. -/
def fresh (now balance : Int) : Bot where
  now := now
  balance := balance

/-! ### What each event does -/

section Events

variable {cfg : Config} {s : Bot}

theorem step_tick (read : Option Int) : step cfg s (.tick read) =
    match s.phase, read with
    | .idle, some bal =>
        let s := { s with lastBalance := some bal }
        if tradable cfg bal < dustFloor then s else { s with phase := .scanning }
    | _, _ => s := rfl

theorem step_judge (v : Verdict) :
    step cfg s (.judge v) = if s.phase = .scanning then judge cfg s v else s := rfl

theorem step_send (r : Reply) :
    step cfg s (.send r) = if s.phase = .cleared then send s r else s := rfl

theorem step_mine (loose : Option Nat) (success : Bool) (gasUsed gasPrice : Nat) (gained : Int) :
    step cfg s (.mine loose success gasUsed gasPrice gained) =
      match resolve s loose (.included (included s success gasUsed gasPrice gained)) with
      | some s' => { s' with
          balance := (included s success gasUsed gasPrice gained).after
          mined := s.mined ++ [included s success gasUsed gasPrice gained] }
      | none => s := rfl

theorem step_drop (loose : Option Nat) :
    step cfg s (.drop loose) = (resolve s loose .dropped).getD s := rfl

theorem step_poll (answered priced : Bool) :
    step cfg s (.poll answered priced) = poll s answered priced := rfl

theorem step_balanceRead (after : Option Int) :
    step cfg s (.balanceRead after) = settle s after := rfl

theorem step_record (w : Write) : step cfg s (.record w) =
    match s.phase with
    | .recording kind _ gasWei =>
        { s with file := s.file.append ⟨kind, s.now, gasWei⟩ w, phase := .idle }
    | _ => s := rfl

end Events

end ArbBot

end Ordo
