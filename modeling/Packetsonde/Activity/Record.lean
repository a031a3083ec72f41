import Packetsonde.Central.JsonCalls
import Packetsonde.Lib.Field

/-!
# Packetsonde — activity records (`activity_record.c`)

An activity record is printed as a JSON object, with the ancestors and the sockets of the process in two
arrays, and read back. The reader looks for the arrays by their names and takes their objects one by one
into a buffer of fixed size.

The fields outside the lists come back, but the flag `partial` is never read (`scalars_survive_iff`). If the
arrays are found, a list comes back exactly if each of its objects fits its buffer
(`lists_survive_iff`). They are found if no string in front of an array can be taken for its name, or no
bracket is written between such a string and the array (`Record.Unmistaken`).
-/

namespace Packetsonde.Activity

open Packetsonde.Lib
open Packetsonde.Central
open List

/-! ## Records -/

def actMaxAnc : Nat := 16
def actMaxSock : Nat := 32

/-- `struct ps_act_proc`. -/
structure Proc where
  pid : Int32
  ppid : Int32
  uid : Int32
  sid : Int32
  startTime : UInt64
  comm : Field 64
  exe : Field 256
  cmdline : Field 512
  cgroup : Field 256
  macLabel : Field 128
  macMode : Field 32

/-- `struct ps_act_ancestor`. -/
structure Ancestor where
  pid : Int32
  depth : Int32
  startTime : UInt64
  comm : Field 64
  deriving DecidableEq

/-- `struct ps_act_socket`. -/
structure Socket where
  ownerPid : Int32
  depth : Int32
  ownerComm : Field 64
  proto : Field 4
  laddr : Field 64
  raddr : Field 64
  state : Field 16
  deriving DecidableEq

/-- `struct ps_activity`; the arrays are lists of at most as many entries as they hold. -/
structure Record where
  ts : Field 24
  event : Field 8
  path : Field 512
  isPartial : Bool
  provTrigger : Field 24
  proc : Proc
  anc : List Ancestor
  sock : List Socket
  anc_le : anc.length ≤ actMaxAnc
  sock_le : sock.length ≤ actMaxSock

/-! ## Printing -/

def Ancestor.members (e : Ancestor) : List (Bytes × Scalar) :=
  [(asc "pid", .int e.pid.toInt), (asc "comm", .str e.comm.bytes), (asc "depth", .int e.depth.toInt),
    (asc "start_ticks", .int e.startTime.toInt64.toInt)]

def Socket.members (s : Socket) : List (Bytes × Scalar) :=
  [(asc "owner_pid", .int s.ownerPid.toInt), (asc "owner_comm", .str s.ownerComm.bytes),
    (asc "depth", .int s.depth.toInt), (asc "proto", .str s.proto.bytes), (asc "laddr", .str s.laddr.bytes),
    (asc "raddr", .str s.raddr.bytes), (asc "state", .str s.state.bytes)]

def headCalls (a : Record) : List Call :=
  [.objectBegin, .member (asc "v") (.int 1), .member (asc "ts") (.str a.ts.bytes),
    .member (asc "event") (.str a.event.bytes), .member (asc "path") (.str a.path.bytes),
    .member (asc "partial") (.bool a.isPartial)] ++
  (if a.provTrigger.bytes ≠ [] then [.member (asc "prov_trigger") (.str a.provTrigger.bytes)] else []) ++
  [.keyObjectBegin (asc "process"), .member (asc "pid") (.int a.proc.pid.toInt),
    .member (asc "ppid") (.int a.proc.ppid.toInt), .member (asc "uid") (.int a.proc.uid.toInt),
    .member (asc "sid") (.int a.proc.sid.toInt),
    .member (asc "start_ticks") (.int a.proc.startTime.toInt64.toInt),
    .member (asc "comm") (.str a.proc.comm.bytes), .member (asc "exe") (.str a.proc.exe.bytes),
    .member (asc "cmdline") (.str a.proc.cmdline.bytes), .member (asc "cgroup") (.str a.proc.cgroup.bytes),
    .keyObjectBegin (asc "mac"), .member (asc "label") (.str a.proc.macLabel.bytes),
    .member (asc "mode") (.str a.proc.macMode.bytes), .objectEnd, .objectEnd]

def ancCalls (a : Record) : List Call :=
  .arrayBegin (asc "ancestry") :: ((a.anc.map Ancestor.members).flatMap objectCalls ++ [.arrayEnd])

def sockCalls (a : Record) : List Call :=
  .arrayBegin (asc "sockets") :: ((a.sock.map Socket.members).flatMap objectCalls ++ [.arrayEnd])

def activityCalls (a : Record) : List Call := headCalls a ++ (ancCalls a ++ (sockCalls a ++ [.objectEnd]))

/-- `ps_activity_to_json`, into a buffer of `cap` bytes. -/
def activityToJson (a : Record) (cap : Nat) : Option Bytes := PsJson.calls cap (activityCalls a)

/-! ## Reading -/

/-- A field, zero before, after `ps_json_extract_string`. -/
def extractField {n : Nat} [NeZero n] (json key : Bytes) : Field n :=
  .cut (jsonExtractString json key n).str (nul_not_mem_cstr _)

/-- An `int` field, zero before, after `ps_json_extract_int`. -/
def extractInt (json key : Bytes) : Int32 := ((jsonExtractInt json key).map Int64.toInt32).getD 0

def extractTicks (json key : Bytes) : UInt64 := ((jsonExtractInt json key).map Int64.toUInt64).getD 0

def readAncestor (obj : Bytes) : Ancestor :=
  ⟨extractInt obj (asc "pid"), extractInt obj (asc "depth"), extractTicks obj (asc "start_ticks"),
    extractField obj (asc "comm")⟩

def readSocket (obj : Bytes) : Socket :=
  ⟨extractInt obj (asc "owner_pid"), extractInt obj (asc "depth"), extractField obj (asc "owner_comm"),
    extractField obj (asc "proto"), extractField obj (asc "laddr"), extractField obj (asc "raddr"),
    extractField obj (asc "state")⟩

/-- The objects of an array, if it is found; `next_json_object` takes them into a buffer of `cap` bytes. -/
def arrayObjects (json name : Bytes) (cap n : Nat) : List Bytes :=
  ((bracketBehind name json).map (objectsFrom cap n)).getD []

theorem length_arrayObjects_le (json name : Bytes) (cap n : Nat) : (arrayObjects json name cap n).length ≤ n := by
  have hobjects : ∀ (n : Nat) (p : Bytes), (objectsFrom cap n p).length ≤ n := by
    intro n
    induction n with
    | zero => exact fun p => Nat.le_refl 0
    | succ n ih =>
      intro p
      rw [objectsFrom]
      split
      · exact Nat.zero_le _
      · exact Nat.succ_le_succ (ih _)
  unfold arrayObjects
  cases bracketBehind name json with
  | none => exact Nat.zero_le _
  | some p => exact hobjects n p

/-- `ps_activity_from_json`. -/
def activityFromJson (json : Bytes) : Option Record :=
  if json.head? ≠ some 123 then none
  else if (jsonExtractString json (asc "ts") 24).ok = false then none
  else
    some
      { ts := extractField json (asc "ts")
        event := extractField json (asc "event")
        path := extractField json (asc "path")
        isPartial := false
        provTrigger := extractField json (asc "prov_trigger")
        proc :=
          { pid := extractInt json (asc "pid")
            ppid := extractInt json (asc "ppid")
            uid := extractInt json (asc "uid")
            sid := extractInt json (asc "sid")
            startTime := extractTicks json (asc "start_ticks")
            comm := extractField json (asc "comm")
            exe := extractField json (asc "exe")
            cmdline := extractField json (asc "cmdline")
            cgroup := extractField json (asc "cgroup")
            macLabel := extractField json (asc "label")
            macMode := extractField json (asc "mode") }
        anc := (arrayObjects json (asc "ancestry") 256 actMaxAnc).map readAncestor
        sock := (arrayObjects json (asc "sockets") 512 actMaxSock).map readSocket
        anc_le := by rw [length_map]; exact length_arrayObjects_le _ _ _ _
        sock_le := by rw [length_map]; exact length_arrayObjects_le _ _ _ _ }

/-! ## One entry -/

variable {k : Bytes} {cs : List Call} {due : Bool}

/-- A field of the record is read back. -/
theorem extractString_field {n : Nat} [NeZero n] {f : Field n} (h : Gives cs k (.str f.bytes)) :
    jsonExtractString (callsText due cs) k n = ⟨f.bytes, true⟩ := by
  rw [extractString_calls h (Nat.pos_of_neZero n), f.cstr_bytes,
    take_of_length_le (Nat.le_sub_one_of_lt f.length_lt), decide_eq_true f.length_lt]

theorem cut_field {n : Nat} [NeZero n] {f : Field n} {x : Extracted} (h : x = ⟨f.bytes, true⟩) :
    Field.cut x.str (nul_not_mem_cstr _) = f := by
  subst h
  ext1
  show (cstr f.bytes).take (n - 1) = f.bytes
  rw [f.cstr_bytes, take_of_length_le (Nat.le_sub_one_of_lt f.length_lt)]

theorem extractField_calls {n : Nat} [NeZero n] {f : Field n} (h : Gives cs k (.str f.bytes)) :
    extractField (callsText due cs) k = f :=
  cut_field (extractString_field h)

theorem extractInt_calls {i : Int32} (h : Gives cs k (.int i.toInt)) : extractInt (callsText due cs) k = i := by
  unfold extractInt
  rw [Central.extractInt_calls h, Option.map_some, Option.getD_some, Int64.toInt32_ofInt, Int32.ofInt_toInt]

theorem extractTicks_calls {t : UInt64} (h : Gives cs k (.int t.toInt64.toInt)) :
    extractTicks (callsText due cs) k = t := by
  unfold extractTicks
  rw [Central.extractInt_calls h, Option.map_some, Option.getD_some, Int64.ofInt_toInt, UInt64.toUInt64_toInt64]

theorem readAncestor_flatText (e : Ancestor) : readAncestor (flatText e.members) = e := by
  unfold readAncestor flatText
  rw [extractInt_calls (i := e.pid) (.mk rfl rfl), extractInt_calls (i := e.depth) (.mk rfl rfl),
    extractTicks_calls (t := e.startTime) (.mk rfl rfl), extractField_calls (f := e.comm) (.mk rfl rfl)]

theorem readSocket_flatText (s : Socket) : readSocket (flatText s.members) = s := by
  unfold readSocket flatText
  rw [extractInt_calls (i := s.ownerPid) (.mk rfl rfl), extractInt_calls (i := s.depth) (.mk rfl rfl),
    extractField_calls (f := s.ownerComm) (.mk rfl rfl), extractField_calls (f := s.proto) (.mk rfl rfl),
    extractField_calls (f := s.laddr) (.mk rfl rfl), extractField_calls (f := s.raddr) (.mk rfl rfl),
    extractField_calls (f := s.state) (.mk rfl rfl)]

/-! ## The lists -/

/-- No array is looked for in vain: no string in front of it ends with its name in quotes, or no bracket is
written between such a string and the array. -/
structure Record.Unmistaken (a : Record) : Prop where
  anc : Clear (asc "ancestry") (headCalls a)
  sock : Clear (asc "sockets") (headCalls a ++ ancCalls a)

variable (a : Record)

theorem plainKeys_headCalls : plainKeys (headCalls a) = true := by
  unfold headCalls
  split <;> rfl

theorem lacks_headCalls : lacks (asc "ancestry") (headCalls a) = true ∧
    lacks (asc "sockets") (headCalls a) = true := by
  unfold headCalls
  split <;> exact ⟨rfl, rfl⟩

section Entries

variable {E : Type} {members : E → List (Bytes × Scalar)}

theorem all_arrayCalls {p : Call → Bool} {name : Bytes} {post : List Call} (hbegin : p (.arrayBegin name) = true)
    (hpost : post.all p = true) (h : ∀ e, (objectCalls (members e)).all p = true) (es : List E) :
    (Call.arrayBegin name :: ((es.map members).flatMap objectCalls ++ post)).all p = true := by
  have hobjects : ((es.map members).flatMap objectCalls).all p = true := by
    rw [all_flatMap, all_map, all_eq_true]
    exact fun e _ => h e
  rw [all_cons, all_append, hbegin, hobjects, hpost]
  rfl

/-- What is read of the entries that fit. -/
theorem map_read_takeWhile {read : Bytes → E} (hread : ∀ e, read (flatText (members e)) = e) (cap : Nat)
    (es : List E) :
    (((es.map members).map flatText).takeWhile (·.length < cap)).map read =
      es.takeWhile fun e => (flatText (members e)).length < cap := by
  induction es with
  | nil => rfl
  | cons e es ih =>
    rw [map_cons, map_cons]
    by_cases hcap : (flatText (members e)).length < cap
    · rw [takeWhile_cons_of_pos (by simpa using hcap), takeWhile_cons_of_pos (by simpa using hcap),
        map_cons, hread, ih]
    · rw [takeWhile_cons_of_neg (by simpa using hcap), takeWhile_cons_of_neg (by simpa using hcap)]
      rfl

end Entries

theorem plainKeys_ancCalls : plainKeys (ancCalls a) = true :=
  all_arrayCalls rfl rfl (fun _ => rfl) a.anc

theorem plainKeys_activityCalls : plainKeys (activityCalls a) = true := by
  have hsock : plainKeys (sockCalls a) = true := all_arrayCalls rfl rfl (fun _ => rfl) a.sock
  unfold activityCalls
  rw [plainKeys_append, plainKeys_append, plainKeys_append, plainKeys_headCalls, plainKeys_ancCalls, hsock]
  rfl

/-- An array that is found gives the objects up to the first that does not fit. -/
theorem arrayObjects_calls {name : Bytes} (hname : Name name) (hbracket : (91 : UInt8) ∉ name) {cs : List Call}
    (hplain : plainKeys cs = true) (hlacks : lacks name cs = true) (hclear : Clear name cs) {cap n : Nat}
    {os : List (List (Bytes × Scalar))} (hlen : os.length ≤ n) (post : List Call) :
    arrayObjects (callsText false (cs ++ .arrayBegin name :: (os.flatMap objectCalls ++ .arrayEnd :: post)))
      name cap n = (os.map flatText).takeWhile (·.length < cap) := by
  unfold arrayObjects
  rw [bracket_array hname hbracket hplain hlacks hclear, Option.map_some, Option.getD_some]
  show objectsFrom cap n ([91] ++ _) = _
  rw [objectsFrom_skip (by decide), objectsFrom_calls, take_of_length_le (by rw [length_map]; exact hlen)]

theorem anc_read (hclear : a.Unmistaken) :
    (arrayObjects (callsText false (activityCalls a)) (asc "ancestry") 256 actMaxAnc).map readAncestor =
      a.anc.takeWhile fun e => (flatText e.members).length < 256 := by
  have happend : activityCalls a = headCalls a ++ .arrayBegin (asc "ancestry") ::
      ((a.anc.map Ancestor.members).flatMap objectCalls ++ .arrayEnd :: (sockCalls a ++ [.objectEnd])) := by
    unfold activityCalls ancCalls
    rw [cons_append, append_assoc, singleton_append]
  rw [happend, arrayObjects_calls (by decide) (by decide) (plainKeys_headCalls a) (lacks_headCalls a).1 hclear.anc
    (by rw [length_map]; exact a.anc_le), map_read_takeWhile readAncestor_flatText]

theorem sock_read (hclear : a.Unmistaken) :
    (arrayObjects (callsText false (activityCalls a)) (asc "sockets") 512 actMaxSock).map readSocket =
      a.sock.takeWhile fun s => (flatText s.members).length < 512 := by
  have happend : activityCalls a = (headCalls a ++ ancCalls a) ++ .arrayBegin (asc "sockets") ::
      ((a.sock.map Socket.members).flatMap objectCalls ++ .arrayEnd :: [.objectEnd]) := by
    unfold activityCalls sockCalls
    rw [cons_append, append_assoc, singleton_append, append_assoc]
  have hplain : plainKeys (headCalls a ++ ancCalls a) = true := by
    rw [plainKeys_append, plainKeys_headCalls, plainKeys_ancCalls]
    rfl
  have hlacks : lacks (asc "sockets") (headCalls a ++ ancCalls a) = true := by
    have hanc : lacks (asc "sockets") (ancCalls a) = true := all_arrayCalls rfl rfl (fun _ => rfl) a.anc
    rw [lacks_append, (lacks_headCalls a).2, hanc]
    rfl
  rw [happend, arrayObjects_calls (by decide) (by decide) hplain hlacks hclear.sock
    (by rw [length_map]; exact a.sock_le), map_read_takeWhile readSocket_flatText]

/-! ## The other fields -/

/-- What is found of a key other than the trigger: its first call in front of the arrays, where every key is
written once but `pid`, `comm` and `start_ticks`, which the arrays repeat. -/
theorem gives_activityCalls {k : Bytes} {v : Scalar} (hk : asc "prov_trigger" ≠ k)
    (h : Gives (headCalls { a with provTrigger := ⟨[], by decide, by decide⟩ }) k v) :
    Gives (activityCalls a) k v := by
  let trigger : List Call :=
    if a.provTrigger.bytes ≠ [] then [.member (asc "prov_trigger") (.str a.provTrigger.bytes)] else []
  generalize hbare : headCalls { a with provTrigger := ⟨[], by decide, by decide⟩ } = bare at h
  have htrigger : trigger.find? (fun c => c.key? == some k) = none := by
    unfold trigger
    split
    · simpa [Call.key?] using hk
    · rfl
  have hsplit : headCalls a = bare.take 6 ++ trigger ++ bare.drop 6 := by
    rw [← hbare]
    rfl
  obtain ⟨-, hfind, hsought, hshort⟩ := h
  refine ⟨plainKeys_activityCalls a, ?_, hsought, hshort⟩
  rw [← take_append_drop 6 bare, find?_append] at hfind
  unfold activityCalls
  rw [hsplit, find?_append, find?_append, find?_append, htrigger, Option.or_none, hfind]
  rfl

theorem provTrigger_read :
    extractField (callsText false (activityCalls a)) (asc "prov_trigger") = a.provTrigger := by
  by_cases htrigger : a.provTrigger.bytes = []
  · -- the member is left out, and the field stays zero
    have hcalls : activityCalls a = (headCalls a ++ (ancCalls a ++ sockCalls a)) ++ [.objectEnd] := by
      unfold activityCalls
      simp only [append_assoc]
    have hlacks : lacks (asc "prov_trigger") (headCalls a ++ (ancCalls a ++ sockCalls a)) = true := by
      have hhead : lacks (asc "prov_trigger") (headCalls a) = true := by
        unfold headCalls
        rw [if_neg (not_not.mpr htrigger)]
        rfl
      have hanc : lacks (asc "prov_trigger") (ancCalls a) = true := all_arrayCalls rfl rfl (fun _ => rfl) a.anc
      have hsock : lacks (asc "prov_trigger") (sockCalls a) = true :=
        all_arrayCalls rfl rfl (fun _ => rfl) a.sock
      rw [lacks_append, lacks_append, hhead, hanc, hsock]
      rfl
    have hplain : plainKeys (headCalls a ++ (ancCalls a ++ sockCalls a)) = true := by
      have hall := plainKeys_activityCalls a
      rw [hcalls, plainKeys_append, Bool.and_eq_true] at hall
      exact hall.1
    ext1
    unfold extractField Field.cut
    dsimp only
    rw [hcalls, extractString_absent (by decide) hplain hlacks, htrigger]
    rfl
  · refine extractField_calls (.mk (plainKeys_activityCalls a) ?_)
    unfold activityCalls headCalls
    rw [if_pos htrigger]
    rfl

/-- What is read of a printed record. The flag is never looked for. -/
theorem fromJson_printed :
    ∃ b, activityFromJson (callsText false (activityCalls a)) = some b ∧
      (b.ts = a.ts ∧ b.event = a.event ∧ b.path = a.path ∧ b.provTrigger = a.provTrigger ∧ b.proc = a.proc) ∧
      b.isPartial = false ∧
      (a.Unmistaken → b.anc = a.anc.takeWhile (fun e => (flatText e.members).length < 256) ∧
        b.sock = a.sock.takeWhile fun s => (flatText s.members).length < 512) := by
  have hfield {n : Nat} [NeZero n] {k : Bytes} {f : Field n} (hne : asc "prov_trigger" ≠ k)
      (h : Gives (headCalls { a with provTrigger := ⟨[], by decide, by decide⟩ }) k (.str f.bytes)) :
      extractField (callsText false (activityCalls a)) k = f := extractField_calls (gives_activityCalls a hne h)
  have hint {k : Bytes} {i : Int32} (hne : asc "prov_trigger" ≠ k)
      (h : Gives (headCalls { a with provTrigger := ⟨[], by decide, by decide⟩ }) k (.int i.toInt)) :
      extractInt (callsText false (activityCalls a)) k = i := extractInt_calls (gives_activityCalls a hne h)
  have hticks : extractTicks (callsText false (activityCalls a)) (asc "start_ticks") = a.proc.startTime :=
    extractTicks_calls (gives_activityCalls a (by decide) (.mk rfl rfl))
  have hts : (jsonExtractString (callsText false (activityCalls a)) (asc "ts") 24).ok = true :=
    congrArg Extracted.ok (extractString_field (f := a.ts) (.mk (plainKeys_activityCalls a) rfl))
  have hhead : (callsText false (activityCalls a)).head? = some 123 := rfl
  unfold activityFromJson
  rw [if_neg (not_not.mpr hhead), if_neg (by rw [hts]; decide)]
  refine ⟨_, rfl, ⟨hfield (by decide) (.mk rfl rfl), hfield (by decide) (.mk rfl rfl),
    hfield (by decide) (.mk rfl rfl), provTrigger_read a, ?_⟩, rfl, fun h => ⟨anc_read a h, sock_read a h⟩⟩
  dsimp only
  rw [hint (i := a.proc.pid) (by decide) (.mk rfl rfl), hint (i := a.proc.ppid) (by decide) (.mk rfl rfl),
    hint (i := a.proc.uid) (by decide) (.mk rfl rfl), hint (i := a.proc.sid) (by decide) (.mk rfl rfl), hticks,
    hfield (f := a.proc.comm) (by decide) (.mk rfl rfl), hfield (f := a.proc.exe) (by decide) (.mk rfl rfl),
    hfield (f := a.proc.cmdline) (by decide) (.mk rfl rfl), hfield (f := a.proc.cgroup) (by decide) (.mk rfl rfl),
    hfield (f := a.proc.macLabel) (by decide) (.mk rfl rfl), hfield (f := a.proc.macMode) (by decide) (.mk rfl rfl)]

/-! ## What comes back -/

/-- If the arrays of a printed record are found, its lists come back exactly if every ancestor takes less
than 256 bytes and every socket less than 512. -/
theorem lists_survive_iff (a : Record) {cap : Nat} {json : Bytes} (hjson : activityToJson a cap = some json)
    (hclear : a.Unmistaken) :
    (∃ b, activityFromJson json = some b ∧ b.anc = a.anc ∧ b.sock = a.sock) ↔
      (∀ e ∈ a.anc, (flatText e.members).length < 256) ∧ ∀ s ∈ a.sock, (flatText s.members).length < 512 := by
  obtain ⟨b, hb, -, -, hlists⟩ := fromJson_printed a
  obtain ⟨hanc, hsock⟩ := hlists hclear
  have hall {E : Type} {p : E → Bool} {es : List E} : es.takeWhile p = es ↔ ∀ e ∈ es, p e = true :=
    takeWhile_eq_self_iff
  rw [text_of_calls hjson]
  constructor
  · rintro ⟨b', hb', hanc', hsock'⟩
    obtain rfl := Option.some.inj (hb.symm.trans hb')
    rw [hanc, hall] at hanc'
    rw [hsock, hall] at hsock'
    exact ⟨fun e he => of_decide_eq_true (hanc' e he), fun s hs => of_decide_eq_true (hsock' s hs)⟩
  · rintro ⟨hancs, hsocks⟩
    refine ⟨b, hb, ?_, ?_⟩
    · rw [hanc, hall]
      exact fun e he => decide_eq_true (hancs e he)
    · rw [hsock, hall]
      exact fun s hs => decide_eq_true (hsocks s hs)

/-- The scalar fields and the process block of a printed record come back exactly if it was not partial. -/
theorem scalars_survive_iff (a : Record) {cap : Nat} {json : Bytes} (hjson : activityToJson a cap = some json) :
    (∃ b, activityFromJson json = some b ∧ b.ts = a.ts ∧ b.event = a.event ∧ b.path = a.path ∧
      b.provTrigger = a.provTrigger ∧ b.isPartial = a.isPartial ∧ b.proc = a.proc) ↔ a.isPartial = false := by
  obtain ⟨b, hb, ⟨hts, hevent, hpath, htrigger, hproc⟩, hpartial, -⟩ := fromJson_printed a
  rw [text_of_calls hjson]
  constructor
  · rintro ⟨b', hb', -, -, -, -, hflag, -⟩
    obtain rfl := Option.some.inj (hb.symm.trans hb')
    rw [← hflag, hpartial]
  · intro hflag
    exact ⟨b, hb, hts, hevent, hpath, htrigger, hpartial.trans hflag.symm, hproc⟩

instance (a : Record) : Decidable a.Unmistaken :=
  decidable_of_iff (Clear (asc "ancestry") (headCalls a) ∧ Clear (asc "sockets") (headCalls a ++ ancCalls a))
    ⟨fun h => ⟨h.1, h.2⟩, fun h => ⟨h.anc, h.sock⟩⟩

theorem nul_not_mem_app : (0 : UInt8) ∉ asc "/usr/bin/app" := by decide

/-- The record of a process with the given name and command line, a parent and a connection. -/
def processRecord (comm : Field 64) (cmdline : Field 512) : Record where
  ts := ⟨asc "2026-07-01T00:00:00Z", by decide, by decide⟩
  event := ⟨asc "connect", by decide, by decide⟩
  path := ⟨[], by decide, by decide⟩
  isPartial := false
  provTrigger := ⟨[], by decide, by decide⟩
  proc :=
    { pid := 4242, ppid := 1, uid := 0, sid := 4242, startTime := 77
      comm
      exe := ⟨asc "/usr/bin/app", by decide, nul_not_mem_app⟩
      cmdline
      cgroup := ⟨asc "/system.slice/app.service", by decide, by decide⟩
      macLabel := ⟨asc "unconfined", by decide, by decide⟩
      macMode := ⟨asc "enforce", by decide, by decide⟩ }
  anc := [⟨1, 1, 5, ⟨asc "systemd", by decide, by decide⟩⟩]
  sock := [⟨4242, 0, comm, ⟨asc "tcp", by decide, by decide⟩, ⟨asc "10.0.0.2:40000", by decide, by decide⟩,
    ⟨asc "192.0.2.7:443", by decide, by decide⟩, ⟨asc "ESTABLISHED", by decide, by decide⟩⟩]
  anc_le := (by decide : 1 ≤ 16)
  sock_le := (by decide : 1 ≤ 32)

def appComm : Field 64 := ⟨asc "app", by decide, by decide⟩

/-- Quotes, braces, brackets and the names of the arrays in a command line do no harm. -/
def odd : Record :=
  processRecord appComm
    ⟨asc "app --sockets=[\"ancestry\":\x7b]\n", by decide, by decide⟩

theorem odd_printed : activityToJson odd 8192 = some (callsText false (activityCalls odd)) := by
  unfold activityToJson
  rw [calls_eq (by decide), if_pos (by decide +kernel)]

theorem odd_survives :
    ∃ json b, activityToJson odd 8192 = some json ∧ activityFromJson json = some b ∧ b.anc = odd.anc ∧
      b.sock = odd.sock := by
  obtain ⟨b, hb, hlists⟩ := (lists_survive_iff odd odd_printed (by decide +kernel)).mpr
    ⟨by decide +kernel, by decide +kernel⟩
  exact ⟨_, b, odd_printed, hb, hlists⟩

theorem odd_scalars_survive :
    ∃ json b, activityToJson odd 8192 = some json ∧ activityFromJson json = some b ∧ b.ts = odd.ts ∧
      b.event = odd.event ∧ b.path = odd.path ∧ b.provTrigger = odd.provTrigger ∧
      b.isPartial = odd.isPartial ∧ b.proc = odd.proc := by
  obtain ⟨b, hb, hfields⟩ := (scalars_survive_iff odd odd_printed).mpr rfl
  exact ⟨_, b, odd_printed, hb, hfields⟩

/-- The same record, of an event that was not seen as a whole. -/
def oddPartial : Record := { odd with isPartial := true }

/-- It is printed and read, and no longer partial. -/
theorem partial_lost :
    ∃ json b, activityToJson oddPartial 8192 = some json ∧ activityFromJson json = some b ∧
      oddPartial.isPartial = true ∧ b.isPartial = false := by
  obtain ⟨b, hb, -, hflag, -⟩ := fromJson_printed oddPartial
  refine ⟨_, b, ?_, hb, rfl, hflag⟩
  unfold activityToJson
  rw [calls_eq (by decide), if_pos (by decide +kernel)]

/-- A process that is named like the array. -/
def named : Record := processRecord ⟨asc "sockets", by decide, by decide⟩ ⟨asc "sockets", by decide, by decide⟩

/-- The ancestor of the process is read as its socket. -/
theorem named_misread :
    (activityToJson named 8192).isSome = true ∧
    ((activityToJson named 8192).bind activityFromJson).map (fun b => b.sock.map fun s => (s.ownerPid, s.depth)) =
      some [(0, 1)] ∧
    named.sock.map (fun s => (s.ownerPid, s.depth)) = [(4242, 0)] := by
  have hprinted : activityToJson named 8192 = some (callsText false (activityCalls named)) := by
    unfold activityToJson
    rw [calls_eq (by decide), if_pos (by decide +kernel)]
  rw [hprinted]
  exact ⟨rfl, by decide +kernel, by decide +kernel⟩

end Packetsonde.Activity
