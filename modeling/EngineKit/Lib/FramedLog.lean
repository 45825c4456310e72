import Mathlib.Data.List.Basic

/-!
# Logs of self-delimiting records

An append-only log is a list of units (bytes, usually) into which records are written one
after the other, and which a reader scans from the front, folding each record into a state,
until it finds that nothing complete is left. This file is the theory of that scan and names
no particular record.

A reader is a function `next` saying what is at the front (`Front`): a whole record and what
follows it, something corrupt, or nothing complete — the last is how an interrupted append
reads, and it ends the scan without an error.

The two laws a format can have, and what each buys:

* `Writes next encode Valid` — a written record is read back whatever follows it. Then a log
  of whole records folds them in order and goes on with the rest (`scan_append`).
* `Canonical next encode Valid` — nothing but a written record reads as one. With both, the
  scan's answer is characterised by the units alone (`scan_eq_ok_iff`): it is `ok` exactly
  when they split into whole records and an end that reads as nothing complete.

`scanned` is the same loop, asked for something else: not what the records come to, but which
ones were read before the scan came to its answer, whatever that was. A record is *in* a log in
this sense only. Its units may well occur somewhere in a log that is never read that far. With
a third law, `Cuts` (an encoding cut short reads as nothing complete), what more units at the
end can add is said by `scanned_snoc`.
-/

set_option autoImplicit false

namespace EngineKit
namespace Lib

/-- What a reader finds at the front of a log. -/
inductive Front (ρ ε υ : Type)
  /-- Nothing complete: the scan ends here. -/
  | stop
  /-- The front cannot be the start of a record. -/
  | corrupt (error : ε)
  /-- A whole record, and the units after it. -/
  | frame (record : ρ) (rest : List υ)
  deriving DecidableEq, Repr

variable {ρ ε υ σ : Type}

def scanLoop (next : List υ → Front ρ ε υ) (apply : σ → ρ → Except ε σ) :
    Nat → σ → List υ → Except ε σ
  | 0, s, _ => .ok s
  | fuel + 1, s, log =>
    match next log with
    | .stop => .ok s
    | .corrupt error => .error error
    | .frame record rest =>
      match apply s record with
      | .error error => .error error
      | .ok s' => scanLoop next apply fuel s' rest

/-- Scans a log from the front, folding its records into `s`. A record takes at least one
    unit, so a loop of one round more than there are units sees the end. -/
def scan (next : List υ → Front ρ ε υ) (apply : σ → ρ → Except ε σ) (s : σ) (log : List υ) :
    Except ε σ :=
  scanLoop next apply (log.length + 1) s log

def scannedLoop (next : List υ → Front ρ ε υ) (apply : σ → ρ → Except ε σ) :
    Nat → σ → List υ → List ρ × Option (List υ)
  | 0, _, log => ([], some log)
  | fuel + 1, s, log =>
    match next log with
    | .stop => ([], some log)
    | .corrupt _ => ([], none)
    | .frame record rest =>
      match apply s record with
      | .error _ => ([], none)
      | .ok s' =>
        let (records, left) := scannedLoop next apply fuel s' rest
        (record :: records, left)

/-- The records a scan folds before it answers, and, if it answers `ok`, what it leaves. -/
def scanned (next : List υ → Front ρ ε υ) (apply : σ → ρ → Except ε σ) (s : σ) (log : List υ) :
    List ρ × Option (List υ) :=
  scannedLoop next apply (log.length + 1) s log

/-- Folds a list of records into a state, stopping at the first one refused. -/
def applyAll (apply : σ → ρ → Except ε σ) : σ → List ρ → Except ε σ
  | s, [] => .ok s
  | s, r :: rs =>
    match apply s r with
    | .error error => .error error
    | .ok s' => applyAll apply s' rs

/-- Reading a record leaves less to read. -/
def Consumes (next : List υ → Front ρ ε υ) : Prop :=
  ∀ log r rest, next log = .frame r rest → rest.length < log.length

/-- A valid record is read back from its encoding, whatever follows. -/
def Writes (next : List υ → Front ρ ε υ) (encode : ρ → List υ) (Valid : ρ → Prop) : Prop :=
  ∀ r rest, Valid r → next (encode r ++ rest) = .frame r rest

/-- Only the encoding of a valid record reads as a record. -/
def Canonical (next : List υ → Front ρ ε υ) (encode : ρ → List υ) (Valid : ρ → Prop) : Prop :=
  ∀ log r rest, next log = .frame r rest → Valid r ∧ log = encode r ++ rest

/-- An encoding cut short reads as nothing complete. -/
def Cuts (next : List υ → Front ρ ε υ) (encode : ρ → List υ) (Valid : ρ → Prop) : Prop :=
  ∀ r n, Valid r → n < (encode r).length → next ((encode r).take n) = .stop

abbrev encodeAll (encode : ρ → List υ) (rs : List ρ) : List υ := rs.flatMap encode

section Scan

variable {next : List υ → Front ρ ε υ} {apply : σ → ρ → Except ε σ} {encode : ρ → List υ}
  {Valid : ρ → Prop}

theorem scanLoop_eq_scanLoop (hc : Consumes next) (m n : Nat) (s : σ) (log : List υ)
    (hm : log.length < m) (hn : log.length < n) :
    scanLoop next apply m s log = scanLoop next apply n s log := by
  induction m generalizing n s log with
  | zero => omega
  | succ m ih =>
    cases n with
    | zero => omega
    | succ n =>
      unfold scanLoop
      cases hf : next log with
      | stop => rfl
      | corrupt error => rfl
      | frame r rest =>
        have hlt := hc log r rest hf
        cases ha : apply s r with
        | error error => simp [ha]
        | ok s' =>
          simp only [ha]
          exact ih n s' rest (by omega) (by omega)

theorem scan_stop {s : σ} {log : List υ} (h : next log = .stop) :
    scan next apply s log = .ok s := by
  simp [scan, scanLoop, h]

theorem scan_corrupt {s : σ} {log : List υ} {error : ε} (h : next log = .corrupt error) :
    scan next apply s log = .error error := by
  simp [scan, scanLoop, h]

theorem scan_frame (hc : Consumes next) {s : σ} {log rest : List υ} {r : ρ}
    (h : next log = .frame r rest) :
    scan next apply s log =
      match apply s r with
      | .error error => .error error
      | .ok s' => scan next apply s' rest := by
  have hlt := hc log r rest h
  conv_lhs => unfold scan scanLoop
  rw [h]
  cases ha : apply s r with
  | error error => simp [ha]
  | ok s' =>
    simp only [ha]
    exact scanLoop_eq_scanLoop hc _ _ s' rest hlt (Nat.lt_succ_self _)

/-- **A log of whole records is folded in order**, and the scan goes on behind them. -/
theorem scan_append (hc : Consumes next) (hw : Writes next encode Valid) (s : σ)
    (rs : List ρ) (hrs : ∀ r ∈ rs, Valid r) (tail : List υ) :
    scan next apply s (encodeAll encode rs ++ tail) =
      match applyAll apply s rs with
      | .error error => .error error
      | .ok s' => scan next apply s' tail := by
  induction rs generalizing s with
  | nil => simp [applyAll]
  | cons r rs ih =>
    have hr : next (encodeAll encode (r :: rs) ++ tail)
        = .frame r (encodeAll encode rs ++ tail) := by
      rw [encodeAll, List.flatMap_cons, List.append_assoc]
      exact hw r _ (hrs r List.mem_cons_self)
    rw [scan_frame hc hr, applyAll]
    cases ha : apply s r with
    | error error => rfl
    | ok s' => exact ih s' fun r' hr' => hrs r' (List.mem_cons_of_mem _ hr')

/-- **Logs that fold to the same state cannot be told apart** by anything behind them. -/
theorem scan_append_congr (hc : Consumes next) (hw : Writes next encode Valid) {s t : σ}
    {rs rs' : List ρ} (hrs : ∀ r ∈ rs, Valid r) (hrs' : ∀ r ∈ rs', Valid r)
    (h : applyAll apply s rs = .ok t) (h' : applyAll apply s rs' = .ok t) (tail : List υ) :
    scan next apply s (encodeAll encode rs ++ tail) =
      scan next apply s (encodeAll encode rs' ++ tail) := by
  rw [scan_append hc hw s rs hrs, scan_append hc hw s rs' hrs', h, h']

/-- Every successful scan read whole records and ended where nothing complete was left. -/
theorem exists_of_scan_eq_ok (hc : Consumes next) (hcan : Canonical next encode Valid)
    (n : Nat) {s t : σ} {log : List υ} (hn : log.length ≤ n)
    (h : scan next apply s log = .ok t) :
    ∃ rs tail, (∀ r ∈ rs, Valid r) ∧ log = encodeAll encode rs ++ tail ∧
      next tail = .stop ∧ applyAll apply s rs = .ok t := by
  induction n generalizing s log with
  | zero =>
    cases hf : next log with
    | stop =>
      rw [scan_stop hf] at h
      exact ⟨[], log, by simp, rfl, hf, by simpa [applyAll] using h⟩
    | corrupt error => rw [scan_corrupt hf] at h; exact absurd h (by simp)
    | frame r rest => exact absurd (hc log r rest hf) (by omega)
  | succ n ih =>
    cases hf : next log with
    | stop =>
      rw [scan_stop hf] at h
      exact ⟨[], log, by simp, rfl, hf, by simpa [applyAll] using h⟩
    | corrupt error => rw [scan_corrupt hf] at h; exact absurd h (by simp)
    | frame r rest =>
      have hlt := hc log r rest hf
      obtain ⟨hv, rfl⟩ := hcan log r rest hf
      rw [scan_frame hc hf] at h
      cases ha : apply s r with
      | error error => rw [ha] at h; exact absurd h (by simp)
      | ok s' =>
        rw [ha] at h
        obtain ⟨rs, tail, hrs, rfl, hstop, happ⟩ := ih (by omega) h
        refine ⟨r :: rs, tail, ?_, by simp [encodeAll], hstop, by simp [applyAll, ha, happ]⟩
        intro r' hr'
        rcases List.mem_cons.mp hr' with rfl | hr'
        · exact hv
        · exact hrs r' hr'

/-- **What a scan accepts, said of the units alone.** -/
theorem scan_eq_ok_iff (hc : Consumes next) (hw : Writes next encode Valid)
    (hcan : Canonical next encode Valid) {s t : σ} {log : List υ} :
    scan next apply s log = .ok t ↔
      ∃ rs tail, (∀ r ∈ rs, Valid r) ∧ log = encodeAll encode rs ++ tail ∧
        next tail = .stop ∧ applyAll apply s rs = .ok t := by
  constructor
  · exact exists_of_scan_eq_ok hc hcan log.length (Nat.le_refl _)
  · intro hex
    obtain ⟨rs, tail, hrs, rfl, hstop, happ⟩ := hex
    rw [scan_append hc hw s rs hrs tail, happ]
    exact scan_stop hstop

/-! ## What was read -/

theorem scannedLoop_eq_scannedLoop (hc : Consumes next) (m n : Nat) (s : σ) (log : List υ)
    (hm : log.length < m) (hn : log.length < n) :
    scannedLoop next apply m s log = scannedLoop next apply n s log := by
  induction m generalizing n s log with
  | zero => omega
  | succ m ih =>
    cases n with
    | zero => omega
    | succ n =>
      unfold scannedLoop
      cases hf : next log with
      | stop => rfl
      | corrupt error => rfl
      | frame r rest =>
        have hlt := hc log r rest hf
        cases ha : apply s r with
        | error error => simp [ha]
        | ok s' =>
          simp only [ha]
          rw [ih n s' rest (by omega) (by omega)]

theorem scanned_stop {s : σ} {log : List υ} (h : next log = .stop) :
    scanned next apply s log = ([], some log) := by
  simp [scanned, scannedLoop, h]

theorem scanned_corrupt {s : σ} {log : List υ} {error : ε} (h : next log = .corrupt error) :
    scanned next apply s log = ([], none) := by
  simp [scanned, scannedLoop, h]

theorem scanned_refused {s : σ} {log rest : List υ} {r : ρ} {error : ε}
    (h : next log = .frame r rest) (ha : apply s r = .error error) :
    scanned next apply s log = ([], none) := by
  simp [scanned, scannedLoop, h, ha]

theorem scanned_frame (hc : Consumes next) {s s' : σ} {log rest : List υ} {r : ρ}
    (h : next log = .frame r rest) (ha : apply s r = .ok s') :
    scanned next apply s log =
      (r :: (scanned next apply s' rest).1, (scanned next apply s' rest).2) := by
  have hlt := hc log r rest h
  conv_lhs => unfold scanned scannedLoop
  simp only [h, ha]
  rw [scannedLoop_eq_scannedLoop hc _ _ s' rest hlt (Nat.lt_succ_self _)]
  rfl

/-- Whole records are read one after the other, and then what is behind them. -/
theorem scanned_append (hc : Consumes next) (hw : Writes next encode Valid) {s t : σ}
    {rs : List ρ} (hrs : ∀ r ∈ rs, Valid r) (h : applyAll apply s rs = .ok t) (tail : List υ) :
    scanned next apply s (encodeAll encode rs ++ tail) =
      (rs ++ (scanned next apply t tail).1, (scanned next apply t tail).2) := by
  induction rs generalizing s with
  | nil =>
    obtain rfl := Except.ok.inj h
    rfl
  | cons r rs ih =>
    have hr : next (encodeAll encode (r :: rs) ++ tail) =
        .frame r (encodeAll encode rs ++ tail) := by
      rw [encodeAll, List.flatMap_cons, List.append_assoc]
      exact hw r _ (hrs r List.mem_cons_self)
    rw [applyAll] at h
    cases ha : apply s r with
    | error error => rw [ha] at h; exact absurd h (by simp)
    | ok s' =>
      rw [ha] at h
      rw [scanned_frame hc hr ha, ih (fun r' hr' => hrs r' (List.mem_cons_of_mem _ hr')) h]
      rfl

variable (apply) in
/-- **What was read stands at the front of the log**, and behind it nothing more is read. -/
theorem exists_of_scanned (hc : Consumes next) (hcan : Canonical next encode Valid) (s : σ)
    (log : List υ) :
    ∃ t tail, (∀ r ∈ (scanned next apply s log).1, Valid r) ∧
      log = encodeAll encode (scanned next apply s log).1 ++ tail ∧
        applyAll apply s (scanned next apply s log).1 = .ok t ∧
          scanned next apply t tail = ([], (scanned next apply s log).2) := by
  induction hn : log.length using Nat.strongRecOn generalizing s log with
  | ind n ih =>
    cases hf : next log with
    | stop =>
      rw [scanned_stop hf]
      exact ⟨s, log, by simp, rfl, rfl, scanned_stop hf⟩
    | corrupt error =>
      rw [scanned_corrupt hf]
      exact ⟨s, log, by simp, rfl, rfl, scanned_corrupt hf⟩
    | frame r rest =>
      cases ha : apply s r with
      | error error =>
        rw [scanned_refused hf ha]
        exact ⟨s, log, by simp, rfl, rfl, scanned_refused hf ha⟩
      | ok s' =>
        have hlt := hc log r rest hf
        obtain ⟨hr, hlog⟩ := hcan log r rest hf
        obtain ⟨t, tail, hall, hrest, happly, hend⟩ := ih rest.length (by omega) s' rest rfl
        rw [scanned_frame hc hf ha]
        refine ⟨t, tail, ?_, ?_, ?_, hend⟩
        · intro r' hr'
          rcases List.mem_cons.mp hr' with rfl | hr'
          · exact hr
          · exact hall r' hr'
        · rw [encodeAll, List.flatMap_cons, List.append_assoc, ← hrest]
          exact hlog
        · rw [applyAll, ha]
          exact happly

/-- A scan that answers `ok` leaves something, if only no units, and what it read comes to its
    answer. -/
theorem scan_eq_ok_iff_scanned (hc : Consumes next) {s t : σ} {log : List υ} :
    scan next apply s log = .ok t ↔
      (scanned next apply s log).2.isSome ∧
        applyAll apply s (scanned next apply s log).1 = .ok t := by
  induction hn : log.length using Nat.strongRecOn generalizing s log with
  | ind n ih =>
    cases hf : next log with
    | stop =>
      rw [scan_stop hf, scanned_stop hf]
      simp [applyAll]
    | corrupt error =>
      rw [scan_corrupt hf, scanned_corrupt hf]
      simp
    | frame r rest =>
      rw [scan_frame hc hf]
      cases ha : apply s r with
      | error error =>
        rw [scanned_refused hf ha]
        simp
      | ok s' =>
        have hlt := hc log r rest hf
        rw [scanned_frame hc hf ha, applyAll, ha]
        exact ih rest.length (by omega) rfl

/-- A front that is not the start of a record stays that way, whatever is written behind it:
    read with more behind it, a record would be whole already, or cut short. -/
theorem length_lt_of_frame_append (hw : Writes next encode Valid)
    (hcan : Canonical next encode Valid) (hcut : Cuts next encode Valid) {tail more rest : List υ}
    {r : ρ} (hf : next (tail ++ more) = .frame r rest) :
    (∃ rest', next tail = .frame r rest' ∧ rest = rest' ++ more) ∨
      next tail = .stop ∧ rest.length < more.length := by
  obtain ⟨hr, heq⟩ := hcan _ r rest hf
  rcases Nat.lt_or_ge tail.length (encode r).length with hlt | hge
  · have htail : tail = (encode r).take tail.length := by
      have hfront := congrArg (List.take tail.length) heq
      rw [List.take_left, List.take_append_of_le_length (Nat.le_of_lt hlt)] at hfront
      exact hfront
    have hlength := congrArg List.length heq
    rw [List.length_append, List.length_append] at hlength
    refine .inr ⟨?_, by omega⟩
    rw [htail]
    exact hcut r tail.length hr hlt
  · obtain ⟨rest', rfl⟩ := List.prefix_of_prefix_length_le ⟨rest, heq.symm⟩
      (List.prefix_append tail more) hge
    rw [List.append_assoc, List.append_cancel_left_eq] at heq
    exact .inl ⟨rest', hw r rest' hr, heq.symm⟩

variable (apply) in
/-- **What more units at the end add**: nothing to a scan that was refused; to one that was not,
    what is read from where it stopped. -/
theorem scanned_snoc (hc : Consumes next) (hw : Writes next encode Valid)
    (hcan : Canonical next encode Valid) (hcut : Cuts next encode Valid) (s : σ)
    (log more : List υ) :
    (∃ t tail, next tail = .stop ∧ (scanned next apply s log).2 = some tail ∧
        (scanned next apply s (log ++ more)).1 =
          (scanned next apply s log).1 ++ (scanned next apply t (tail ++ more)).1) ∨
      (scanned next apply s log).2 = none ∧
        (scanned next apply s (log ++ more)).1 = (scanned next apply s log).1 := by
  obtain ⟨t, tail, hall, hlog, happly, hend⟩ := exists_of_scanned apply hc hcan s log
  have hmore : (scanned next apply s (log ++ more)).1 =
      (scanned next apply s log).1 ++ (scanned next apply t (tail ++ more)).1 := by
    conv_lhs => rw [hlog, List.append_assoc]
    rw [scanned_append hc hw hall happly]
  cases hf : next tail with
  | stop =>
    rw [scanned_stop hf] at hend
    exact .inl ⟨t, tail, hf, (Prod.mk.inj hend).2.symm, hmore⟩
  | corrupt error =>
    rw [scanned_corrupt hf] at hend
    refine .inr ⟨(Prod.mk.inj hend).2.symm, ?_⟩
    rw [hmore]
    cases hf' : next (tail ++ more) with
    | stop => rw [scanned_stop hf', List.append_nil]
    | corrupt error' => rw [scanned_corrupt hf', List.append_nil]
    | frame r rest =>
      rcases length_lt_of_frame_append hw hcan hcut hf' with ⟨rest', hframe, -⟩ | ⟨hstop, -⟩
      · exact absurd (hf.symm.trans hframe) (by simp)
      · exact absurd (hf.symm.trans hstop) (by simp)
  | frame r rest =>
    obtain ⟨hr, rfl⟩ := hcan tail r rest hf
    cases ha : apply t r with
    | error error =>
      rw [scanned_refused hf ha] at hend
      refine .inr ⟨(Prod.mk.inj hend).2.symm, ?_⟩
      have hf' : next (encode r ++ rest ++ more) = .frame r (rest ++ more) := by
        rw [List.append_assoc]
        exact hw r _ hr
      rw [hmore, scanned_refused hf' ha, List.append_nil]
    | ok t' =>
      rw [scanned_frame hc hf ha] at hend
      exact absurd (Prod.mk.inj hend).1 (List.cons_ne_nil _ _)

end Scan

end Lib
end EngineKit
