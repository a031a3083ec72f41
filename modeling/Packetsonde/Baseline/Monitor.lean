import Packetsonde.Baseline.Slug

/-!
# Packetsonde — the baseline monitor (`baseline_monitor.c`, `baseline_decide.c`, `dest_match.c`)

Every activity record is checked against the baseline of its program: the path that was used, the addresses
its sockets are connected to, and its parent. What the baseline does not cover is reported the first time it
is seen. This module has the checks and the values of a record they are made on, with their verdicts
(`processRecord`); the findings, the set of what was seen, and the files of candidates, which are not read here,
are left out.
-/

namespace Packetsonde.Baseline

open Packetsonde.Lib
open Packetsonde.Central (jsonExtractString)

/-! ## Destinations -/

/-- `strrchr`. -/
def lastIdx (c : UInt8) (s : Bytes) : Option Nat := (s.reverse.idxOf? c).map (s.length - 1 - ·)

/-- `split_raddr`: the address and the port. -/
def splitRaddr (raddr : Bytes) : Bytes × Bytes :=
  match lastIdx 58 raddr with
  | some i => ((raddr.take i).take 63, (raddr.drop (i + 1)).take 15)
  | none => (raddr.take 63, [])

/-- One `%u` of `sscanf`: the value as it is stored, and what is left. -/
def scanU (s : Bytes) : Option (UInt32 × Bytes) :=
  let s := s.dropWhile isSpace
  let neg := s.head? == some 45
  let s := if neg || s.head? == some 43 then s.tail else s
  let ds := s.takeWhile isDigit
  if ds = [] then none
  else
    let v := UInt64.ofNat (min (digitsValue ds) (2 ^ 64 - 1))
    some ((if neg && digitsValue ds < 2 ^ 64 then 0 - v else v).toUInt32, s.dropWhile isDigit)

/-- `.%u`. -/
def scanDotU : Bytes → Option (UInt32 × Bytes)
  | 46 :: s => scanU s
  | _ => none

/-- `v4_to_u32`. -/
def v4ToU32 (ip : Bytes) : Option UInt32 := do
  let (a, s) ← scanU ip
  let (b, s) ← scanDotU s
  let (c, s) ← scanDotU s
  let (d, _) ← scanDotU s
  if a > 255 ∨ b > 255 ∨ c > 255 ∨ d > 255 then none
  else some (a <<< 24 ||| b <<< 16 ||| c <<< 8 ||| d)

def sameNet (net ip : UInt32) (bits : Int32) : Bool :=
  if bits ≤ 0 then true
  else
    let mask : UInt32 := if bits ≥ 32 then 0xFFFFFFFF else ~~~ ((1 <<< (32 - bits.toInt.toNat).toUInt32) - 1)
    net &&& mask == ip &&& mask

/-- `ps_dest_match`. -/
def destMatch (entry raddr : Bytes) : Bool :=
  let (rip, rport) := splitRaddr raddr
  let e := entry.take 127
  let colon := (lastIdx 58 e).filter fun i => (e.idxOf? 47).all (· < i)
  let eport := colon.map fun i => e.drop (i + 1)
  let e := (colon.map e.take).getD e
  if eport.any (· ≠ rport) then false
  else if e = [] then true
  else
    match e.idxOf? 47 with
    | some slash =>
      match v4ToU32 (e.take slash), v4ToU32 rip with
      | some net, some ip => sameNet net ip (strtoll (e.drop (slash + 1))).1.toInt32
      | _, _ => false
    | none => e = rip

/-! ## Verdicts -/

/-- `enum ps_bl_verdict`. -/
inductive Verdict where
  | covered
  | novel
  | anomaly
  deriving DecidableEq, Repr

/-- `ps_baseline_decide` and `ps_baseline_decide_dest`; `within` says what a set covers. -/
def decideBy (within : BaselineSet → Bytes → Bool) (baseline denials : BaselineSet) (value : Bytes) : Verdict :=
  if within baseline value then .covered
  else if within denials value then .anomaly
  else .novel

def baselineDecide : BaselineSet → BaselineSet → Bytes → Verdict := decideBy BaselineSet.covered

/-- `ps_destset_covered`. -/
def destsetCovered (s : BaselineSet) (raddr : Bytes) : Bool := s.paths.any (destMatch · raddr)

def baselineDecideDest : BaselineSet → BaselineSet → Bytes → Verdict := decideBy destsetCovered

/-! ## Detections -/

inductive Signal where
  | file
  | dest
  | spawn
  deriving DecidableEq, Repr

structure Detection where
  exe : CString
  signal : Signal
  value : CString
  verdict : Verdict
  event : Bytes
  comm : Bytes
  deriving DecidableEq

def copied (b : Bytes) : CString := ⟨cstr b, nul_not_mem_cstr b⟩

structure Record where
  exe : CString
  path : CString
  event : Bytes
  comm : Bytes

/-- The members `ps_baseline_process_record` reads; `none` where it returns at once. -/
def readRecord (rec : Bytes) : Option Record :=
  let exe := jsonExtractString rec (asc "exe") 256
  let path := jsonExtractString rec (asc "path") 512
  let event := jsonExtractString rec (asc "event") 16
  if exe.ok = false ∨ exe.str = [] ∨ path.ok = false ∨ event.ok = false then none
  else some ⟨copied exe.out, copied path.out, event.str, (jsonExtractString rec (asc "comm") 64).str⟩

/-- The loop over `"raddr":"`, with the turns that find an empty one. -/
def raddrsFrom : Nat → Bytes → List Bytes
  | 0, _ => []
  | n + 1, sp =>
    match behind (asc "\"raddr\":\"") sp with
    | none => []
    | some p =>
      match p.idxOf? 34 with
      | none => []
      | some k => (p.take k).take 63 :: raddrsFrom n (p.drop (k + 1))

/-- The addresses of a record; each turn moves on by at least a byte. -/
def raddrs (rec : Bytes) : List Bytes := (raddrsFrom rec.length rec).filter (· ≠ [])

/-- `extract_parent_comm`. -/
def parentComm (rec : Bytes) : Bytes :=
  match findSub (asc "\"ancestry\":[") rec with
  | none => []
  | some a =>
    match behind (asc "\"comm\":\"") (rec.drop a) with
    | none => []
    | some c =>
      match c.idxOf? 34 with
      | none => []
      | some n => (c.take n).take 63

section Process

variable (stateDir : Bytes)

/-- The detection of a value under the two sets of its signal. -/
def detection (r : Record) (signal : Signal) (value : Bytes) (verdict : Verdict) : Detection :=
  ⟨r.exe, signal, copied value, verdict, r.event, r.comm⟩

def fileDetections (fs : Files) (r : Record) : List Detection :=
  [detection r .file r.path.bytes (baselineDecide (loadFile .paths (asc "baseline.json") fs stateDir r.exe)
    (loadFile .paths (asc "denials.json") fs stateDir r.exe) r.path.bytes)]

def destDetections (fs : Files) (r : Record) (rec : Bytes) : List Detection :=
  (raddrs rec).map fun a =>
    detection r .dest a (baselineDecideDest (loadFile .dests (asc "dests.json") fs stateDir r.exe)
      (loadFile .dests (asc "dest-denials.json") fs stateDir r.exe) a)

def spawnDetections (fs : Files) (r : Record) (rec : Bytes) : List Detection :=
  if parentComm rec = [] then []
  else [detection r .spawn (parentComm rec)
    (baselineDecide (loadFile .parents (asc "parents.json") fs stateDir r.exe)
      (loadFile .parents (asc "parent-denials.json") fs stateDir r.exe) (parentComm rec))]

/-- The values `ps_baseline_process_record` judges, with their verdicts. -/
def processRecord (fs : Files) (rec : Bytes) : List Detection :=
  match readRecord rec with
  | none => []
  | some r =>
    fileDetections stateDir fs r ++ destDetections stateDir fs r rec ++ spawnDetections stateDir fs r rec

end Process

end Packetsonde.Baseline
