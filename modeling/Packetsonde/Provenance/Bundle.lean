import Packetsonde.Activity.Record
import Packetsonde.Lib.Fifo

/-!
# Packetsonde — provenance records (`provenance.c`, `obs_queue.c`, `maybe_ship_provenance` of `kernel/main.c`)

An activity record that carries a trigger is printed once more, with the writer, its ancestors and the first
eight of its sockets, wrapped as an event and queued for shipping. Record and event are built in buffers of 4096
bytes, while the activity record comes in a frame of 8192.

`length_bundle` adds up the size of such a record, with what its strings take when they are escaped, and the
record is queued exactly if the event that wraps it stays below the size of its buffer (`ships_iff`).
-/

namespace Packetsonde.Provenance

open Packetsonde.Lib
open Packetsonde.Central
open Packetsonde.Activity (Record Ancestor Socket activityToJson activityFromJson activityCalls)
open List hiding Vector

/-! ## The record -/

/-- `raddr_ip`: what stands in front of the last colon, in a buffer of 64 bytes. -/
def raddrIp (raddr : Bytes) : Bytes :=
  let len := match raddr.reverse.idxOf? 58 with
    | some k => raddr.length - (k + 1)
    | none => raddr.length
  raddr.take (min len 63)

/-- `prov_severity`. -/
def provSeverity (trigger : Bytes) : Bytes :=
  if trigger = asc "write_executable" then asc "high"
  else if trigger = asc "write_sensitive_path" then asc "high"
  else asc "medium"

def isSession (s : Socket) : Bool :=
  0 < s.depth ∧ s.proto.bytes = asc "tcp" ∧ s.state.bytes = asc "ESTABLISHED"

def ancestorMembers (e : Ancestor) : List (Bytes × Scalar) :=
  [(asc "pid", .int e.pid.toInt), (asc "comm", .str e.comm.bytes),
    (asc "start_ticks", .int e.startTime.toInt64.toInt)]

def socketMembers (s : Socket) : List (Bytes × Scalar) :=
  [(asc "proto", .str s.proto.bytes), (asc "laddr", .str s.laddr.bytes), (asc "raddr", .str s.raddr.bytes),
    (asc "state", .str s.state.bytes), (asc "owner_pid", .int s.ownerPid.toInt)]

/-- The address the first session comes from; one of several is no more than a guess. -/
def sessionMembers (a : Record) : List (Bytes × Scalar) :=
  match a.sock.filter isSession with
  | [] => []
  | s :: more =>
    [(asc "session_src_ip", .str (raddrIp s.raddr.bytes)),
      (asc "session_src_ip_confidence", .str (if more = [] then asc "firm" else asc "tentative"))]

def maxShipped : Nat := 8

def leadCalls (a : Record) (trigger host : Bytes) : List Call :=
  [.objectBegin, .member (asc "host") (.str host), .member (asc "severity") (.str (provSeverity trigger)),
    .member (asc "confidence") (.str (asc "firm")), .keyObjectBegin (asc "target"),
    .member (asc "path") (.str a.path.bytes), .objectEnd, .member (asc "trigger") (.str trigger),
    .member (asc "event") (.str a.event.bytes), .keyObjectBegin (asc "writer"),
    .member (asc "pid") (.int a.proc.pid.toInt),
    .member (asc "start_ticks") (.int a.proc.startTime.toInt64.toInt),
    .member (asc "uid") (.int a.proc.uid.toInt), .member (asc "exe") (.str a.proc.exe.bytes),
    .member (asc "cmdline") (.str a.proc.cmdline.bytes), .member (asc "cgroup") (.str a.proc.cgroup.bytes),
    .member (asc "mac_label") (.str a.proc.macLabel.bytes), .objectEnd, .arrayBegin (asc "ancestry")]

def memberCalls (ms : List (Bytes × Scalar)) : List Call := ms.map fun m => .member m.1 m.2

/-- The calls of `ps_provenance_build_record`. -/
def bundleCalls (a : Record) (trigger host : Bytes) : List Call :=
  leadCalls a trigger host ++
  ((a.anc.map ancestorMembers).flatMap objectCalls ++
    (.arrayEnd :: .arrayBegin (asc "sockets") ::
      (((a.sock.take maxShipped).map socketMembers).flatMap objectCalls ++
        (.arrayEnd :: (memberCalls (sessionMembers a) ++ [.objectEnd])))))

/-- `ps_provenance_build_record`, into a buffer of `cap` bytes. -/
def buildRecord (a : Record) (trigger host : Bytes) (cap : Nat) : Option Bytes :=
  PsJson.calls cap (bundleCalls a trigger host)

/-! ## Events and their queue -/

def obsItemMax : Nat := 4096
def obsQueueCap : Nat := 256

/-- What `ps_obs_build_event` prints. -/
def eventText (channel tsIso observation : Bytes) : Bytes :=
  asc "\x7b\"kind\":\"" ++ (channel ++ (asc "\",\"ts\":\"" ++ (tsIso ++
    (asc "\",\"observation\":" ++ (observation ++ asc "\x7d")))))

/-- `ps_obs_build_event`, into a buffer of `cap` bytes. -/
def obsBuildEvent (cap : Nat) (channel tsIso observation : Bytes) : Option Bytes :=
  if (eventText channel tsIso observation).length < cap then some (eventText channel tsIso observation) else none

structure ObsItem where
  data : Bytes
  length_lt : data.length < obsItemMax

/-- The ring of `obs_queue.c`. -/
abbrev ObsQueue := Fifo ObsItem obsQueueCap

def queued (q : ObsQueue) : List Bytes := q.items.map ObsItem.data

/-- `ps_obs_queue_init`. -/
def obsQueueInit : ObsQueue :=
  { slots := Vector.replicate _ ⟨[], by decide⟩, head := ⟨0, by decide⟩, tail := ⟨0, by decide⟩, count := 0
    count_le := Nat.zero_le _, tail_eq := rfl }

/-- `ps_obs_queue_push`. -/
def obsQueuePush (q : ObsQueue) (event : Bytes) : ObsQueue :=
  if event = [] then q
  else if h : event.length < obsItemMax then q.push ⟨event, h⟩ else q

/-- `maybe_ship_provenance`; `now` is the time as `ps_iso8601_utc` prints it, if it does. -/
def maybeShipProvenance (json : Bytes) (host : Field 256) (now : Option (Field 24)) (q : ObsQueue) : ObsQueue :=
  if (findSub (asc "\"prov_trigger\"") json).isNone then q
  else
    match activityFromJson json with
    | none => q
    | some a =>
      if a.provTrigger.bytes = [] then q
      else
        match buildRecord a a.provTrigger.bytes host.bytes obsItemMax with
        | none => q
        | some bundle =>
          match now with
          | none => q
          | some ts =>
            match obsBuildEvent obsItemMax (asc "detect.file_provenance") ts.bytes bundle with
            | none => q
            | some event => obsQueuePush q event

/-! ## Sizes -/

/-- What a byte of a string takes when it is printed. -/
def escapeSize (c : UInt8) : Nat :=
  if c ∈ [34, 92, 10, 9, 13] then 2 else if c < 0x20 then 6 else 1

def quotedSize (s : Bytes) : Nat := (s.map escapeSize).sum + 2

def numberSize (i : Int) : Nat := (decimal i).length

/-- What a member takes whose value takes `n` bytes. -/
def memberSize (key : Bytes) (n : Nat) : Nat := key.length + 3 + n

/-- What an object or an array takes, with its brackets and a comma between the pieces. -/
def groupSize (pieces : List Nat) : Nat := pieces.sum + (pieces.length - 1) + 2

def ancestorSize (e : Ancestor) : Nat :=
  groupSize [memberSize (asc "pid") (numberSize e.pid.toInt), memberSize (asc "comm") (quotedSize e.comm.bytes),
    memberSize (asc "start_ticks") (numberSize e.startTime.toInt64.toInt)]

def socketSize (s : Socket) : Nat :=
  groupSize [memberSize (asc "proto") (quotedSize s.proto.bytes), memberSize (asc "laddr") (quotedSize s.laddr.bytes),
    memberSize (asc "raddr") (quotedSize s.raddr.bytes), memberSize (asc "state") (quotedSize s.state.bytes),
    memberSize (asc "owner_pid") (numberSize s.ownerPid.toInt)]

def sessionSizes (a : Record) : List Nat :=
  match a.sock.filter isSession with
  | [] => []
  | s :: more =>
    [memberSize (asc "session_src_ip") (quotedSize (raddrIp s.raddr.bytes)),
      memberSize (asc "session_src_ip_confidence") (if more = [] then 6 else 11)]

def writerSize (a : Record) : Nat :=
  groupSize [memberSize (asc "pid") (numberSize a.proc.pid.toInt),
    memberSize (asc "start_ticks") (numberSize a.proc.startTime.toInt64.toInt),
    memberSize (asc "uid") (numberSize a.proc.uid.toInt), memberSize (asc "exe") (quotedSize a.proc.exe.bytes),
    memberSize (asc "cmdline") (quotedSize a.proc.cmdline.bytes),
    memberSize (asc "cgroup") (quotedSize a.proc.cgroup.bytes),
    memberSize (asc "mac_label") (quotedSize a.proc.macLabel.bytes)]

def bundleSize (a : Record) (trigger host : Bytes) : Nat :=
  groupSize ([memberSize (asc "host") (quotedSize host),
    memberSize (asc "severity") (quotedSize (provSeverity trigger)), memberSize (asc "confidence") 6,
    memberSize (asc "target") (groupSize [memberSize (asc "path") (quotedSize a.path.bytes)]),
    memberSize (asc "trigger") (quotedSize trigger), memberSize (asc "event") (quotedSize a.event.bytes),
    memberSize (asc "writer") (writerSize a), memberSize (asc "ancestry") (groupSize (a.anc.map ancestorSize)),
    memberSize (asc "sockets") (groupSize ((a.sock.take maxShipped).map socketSize))] ++ sessionSizes a)

def eventSize (a : Record) (trigger host ts : Bytes) : Nat :=
  groupSize [memberSize (asc "kind") 24, memberSize (asc "ts") (ts.length + 2),
    memberSize (asc "observation") (bundleSize a trigger host)]

theorem length_quoteChar : ∀ c : UInt8, (PsJson.quoteChar c).length = escapeSize c :=
  forall_byte (by decide +kernel)

theorem length_quote (s : Bytes) : (PsJson.quote s).length = quotedSize s := by
  rw [PsJson.length_quote, length_flatMap, quotedSize]
  simp only [length_quoteChar]

theorem length_str {s : Bytes} (h : (0 : UInt8) ∉ s) : (Scalar.str s).text.length = quotedSize s := by
  rw [Scalar.text, cstr_eq_self_iff.mpr h, length_quote]

section Lengths

variable {k : Bytes} (due : Bool)

theorem length_comma (c : Call) (hc : c.separated = true) (rest : Bytes) :
    ((if due && c.separated then asc "," else []) ++ rest).length = (if due then 1 else 0) + rest.length := by
  rw [hc, Bool.and_true, length_append]
  cases due <;> rfl

theorem length_keyed (hk : Plain k) (rest : Bytes) :
    (PsJson.quote (cstr k) ++ (asc ":" ++ rest)).length = memberSize k rest.length := by
  rw [quote_of_plain hk, memberSize, quoted, length_append, length_append, length_cons,
    length_append, length_singleton]
  show _ + (1 + _) = _
  omega

theorem length_member (hk : Plain k) (v : Scalar) :
    ((Call.member k v).text due).length = (if due then 1 else 0) + memberSize k v.text.length :=
  (length_comma due _ rfl _).trans (congrArg _ (length_keyed hk _))

theorem length_keyObjectBegin (hk : Plain k) :
    ((Call.keyObjectBegin k).text due).length = (if due then 1 else 0) + memberSize k 1 :=
  (length_comma due _ rfl _).trans (congrArg _ (length_keyed hk _))

theorem length_arrayBegin (hk : Plain k) :
    ((Call.arrayBegin k).text due).length = (if due then 1 else 0) + memberSize k 1 :=
  (length_comma due _ rfl _).trans (congrArg _ (length_keyed hk _))

theorem length_objectBegin : (Call.objectBegin.text due).length = (if due then 1 else 0) + 1 :=
  length_comma due _ rfl _

theorem length_objectEnd : (Call.objectEnd.text due).length = 1 := by cases due <;> rfl

theorem length_arrayEnd : (Call.arrayEnd.text due).length = 1 := by cases due <;> rfl

theorem length_callsText_nil : (callsText due []).length = 0 := rfl

theorem length_callsText_cons (c : Call) (cs : List Call) :
    (callsText due (c :: cs)).length = (c.text due).length + (callsText c.comma cs).length := by
  rw [callsText, length_append]

/-- Objects in a row. -/
theorem length_objects (os : List (List (Bytes × Scalar))) :
    (callsText due (os.flatMap objectCalls)).length =
      (os.map fun ms => (flatText ms).length).sum + (if due then os.length else os.length - 1) := by
  induction os generalizing due with
  | nil => cases due <;> rfl
  | cons ms os ih =>
    have hcomma : (sep due).length = if due then 1 else 0 := by cases due <;> rfl
    rw [flatMap_cons, callsText_object, length_append, length_append, ih true, map_cons,
      sum_cons, length_cons, hcomma]
    cases due <;> simp <;> omega

end Lengths

theorem length_ancestor (e : Ancestor) : (flatText (ancestorMembers e)).length = ancestorSize e := by
  unfold flatText
  simp (disch := decide) only [objectCalls, ancestorMembers, map_cons, map_nil, cons_append,
    nil_append, length_callsText_cons, length_callsText_nil, length_objectBegin, length_member,
    length_objectEnd, Call.comma, length_str e.comm.noNul]
  simp [ancestorSize, groupSize, Scalar.text, numberSize]
  omega

theorem length_socket (s : Socket) : (flatText (socketMembers s)).length = socketSize s := by
  unfold flatText
  simp (disch := decide) only [objectCalls, socketMembers, map_cons, map_nil, cons_append,
    nil_append, length_callsText_cons, length_callsText_nil, length_objectBegin, length_member,
    length_objectEnd, Call.comma, length_str s.proto.noNul, length_str s.laddr.noNul, length_str s.raddr.noNul,
    length_str s.state.noNul]
  simp [socketSize, groupSize, Scalar.text, numberSize]
  omega

theorem nul_not_mem_raddrIp {raddr : Bytes} (h : (0 : UInt8) ∉ raddr) : 0 ∉ raddrIp raddr :=
  fun hmem => h (mem_of_mem_take hmem)

variable (a : Record)

theorem length_session :
    (callsText true (memberCalls (sessionMembers a))).length =
      (sessionSizes a).sum + (sessionSizes a).length := by
  unfold memberCalls sessionMembers sessionSizes
  cases a.sock.filter isSession with
  | nil => rfl
  | cons s more =>
    have hconfidence : (Scalar.str (if more = [] then asc "firm" else asc "tentative")).text.length =
        if more = [] then 6 else 11 := by split <;> rfl
    simp (disch := decide) only [map_cons, map_nil, length_callsText_cons, length_callsText_nil,
      length_member, Call.comma, length_str (nul_not_mem_raddrIp s.raddr.noNul), hconfidence]
    simp
    omega

theorem nul_not_mem_provSeverity (trigger : Bytes) : (0 : UInt8) ∉ provSeverity trigger := by
  unfold provSeverity
  split
  · decide
  · split <;> decide

variable {trigger host : Bytes}

theorem memberSize_group (k : Bytes) (pieces : List Nat) :
    memberSize k (groupSize pieces) = memberSize k 1 + (pieces.sum + (pieces.length - 1) + 1) := by
  unfold memberSize groupSize
  omega

theorem length_leadCalls (htrigger : (0 : UInt8) ∉ trigger) (hhost : (0 : UInt8) ∉ host) :
    (callsText false (leadCalls a trigger host)).length =
      1 + memberSize (asc "host") (quotedSize host) +
      (1 + memberSize (asc "severity") (quotedSize (provSeverity trigger))) + (1 + memberSize (asc "confidence") 6) +
      (1 + memberSize (asc "target") (groupSize [memberSize (asc "path") (quotedSize a.path.bytes)])) +
      (1 + memberSize (asc "trigger") (quotedSize trigger)) +
      (1 + memberSize (asc "event") (quotedSize a.event.bytes)) + (1 + memberSize (asc "writer") (writerSize a)) +
      (1 + memberSize (asc "ancestry") 1) := by
  have hfirm : (Scalar.str (asc "firm")).text.length = 6 := rfl
  simp (disch := decide) only [leadCalls, length_callsText_cons, length_callsText_nil, length_objectBegin,
    length_member, length_keyObjectBegin, length_objectEnd, length_arrayBegin, Call.comma, hfirm,
    length_str hhost, length_str (nul_not_mem_provSeverity trigger), length_str a.path.noNul, length_str htrigger,
    length_str a.event.noNul, length_str a.proc.exe.noNul, length_str a.proc.cmdline.noNul,
    length_str a.proc.cgroup.noNul, length_str a.proc.macLabel.noNul]
  simp only [writerSize, memberSize_group, Scalar.text, numberSize, sum_cons, sum_nil,
    length_cons, length_nil, Bool.false_eq_true, if_false, if_true, Nat.reduceAdd, Nat.reduceSub]
  ring

/-- The size of the record, added up. -/
theorem length_bundle (htrigger : (0 : UInt8) ∉ trigger) (hhost : (0 : UInt8) ∉ host) :
    (callsText false (bundleCalls a trigger host)).length = bundleSize a trigger host := by
  have hanc : (a.anc.map ancestorMembers).map (fun ms => (flatText ms).length) = a.anc.map ancestorSize := by
    rw [map_map]
    exact map_congr_left fun e _ => length_ancestor e
  have hsock : ((a.sock.take maxShipped).map socketMembers).map (fun ms => (flatText ms).length) =
      (a.sock.take maxShipped).map socketSize := by
    rw [map_map]
    exact map_congr_left fun s _ => length_socket s
  have hlead : commaAfter false (leadCalls a trigger host) = false := rfl
  -- no comma is written in front of a bracket that closes, so it does not matter what the array holds
  simp (disch := decide) only [bundleCalls, callsText_append, length_append, length_leadCalls a htrigger hhost,
    hlead, length_objects, length_callsText_cons, length_callsText_nil, length_arrayBegin, length_arrayEnd,
    length_objectEnd, Call.comma, length_session, hanc, hsock]
  simp [bundleSize, groupSize, memberSize]
  omega

theorem length_eventText (ts observation : Bytes) :
    (eventText (asc "detect.file_provenance") ts observation).length =
      groupSize [memberSize (asc "kind") 24, memberSize (asc "ts") (ts.length + 2),
        memberSize (asc "observation") observation.length] := by
  have hkind : (asc "\x7b\"kind\":\"").length = 9 := rfl
  have hchannel : (asc "detect.file_provenance").length = 22 := rfl
  have hts : (asc "\",\"ts\":\"").length = 8 := rfl
  have hobs : (asc "\",\"observation\":").length = 16 := rfl
  have hend : (asc "\x7d").length = 1 := rfl
  have hkeys : (asc "kind").length = 4 ∧ (asc "ts").length = 2 ∧ (asc "observation").length = 11 := ⟨rfl, rfl, rfl⟩
  simp only [eventText, length_append, hkind, hchannel, hts, hobs, hend, groupSize, memberSize, hkeys,
    sum_cons, sum_nil, length_cons, length_nil]
  omega

/-! ## Shipping -/

theorem queued_push (q : ObsQueue) {event : Bytes} (hne : event ≠ []) (hlen : event.length < obsItemMax) :
    queued (obsQueuePush q event) = (if q.count = obsQueueCap then (queued q).tail else queued q) ++ [event] := by
  rw [obsQueuePush, if_neg hne, dif_pos hlen, queued, Fifo.items_push, map_append, map_singleton, queued]
  split
  · rw [map_tail]
  · rfl

/-- A record with a trigger passes the search for its name. -/
theorem findSub_trigger (htrigger : a.provTrigger.bytes ≠ []) :
    (findSub (asc "\"prov_trigger\"") (callsText false (activityCalls a))).isNone = false := by
  have hread := Activity.provTrigger_read a
  cases hkey : findSub (keyNeedle (asc "prov_trigger")) (callsText false (activityCalls a)) with
  | none =>
    have hextract : jsonExtractString (callsText false (activityCalls a)) (asc "prov_trigger") 24 =
        ⟨[], false⟩ := by
      unfold jsonExtractString behind
      rw [if_neg (by decide), hkey]
      rfl
    refine absurd ?_ htrigger
    rw [← hread]
    unfold Activity.extractField Field.cut
    dsimp only
    rw [hextract]
    rfl
  | some i =>
    obtain ⟨hi, hat, -⟩ := findSub_eq_some_iff.mp hkey
    have hneedle : asc "\"prov_trigger\"" <+: keyNeedle (asc "prov_trigger") := ⟨[58], rfl⟩
    obtain ⟨j, -, hj⟩ := exists_findSub hi (hneedle.trans hat)
    rw [hj]
    rfl

/-- Record and event fit their buffers, and the event is what the queue gets. -/
def Ships (json : Bytes) (host : Field 256) (ts : Field 24) (q : ObsQueue) : Prop :=
  ∃ a bundle event, activityFromJson json = some a ∧
    buildRecord a a.provTrigger.bytes host.bytes obsItemMax = some bundle ∧
    obsBuildEvent obsItemMax (asc "detect.file_provenance") ts.bytes bundle = some event ∧
    queued (maybeShipProvenance json host (some ts) q) =
      (if q.count = obsQueueCap then (queued q).tail else queued q) ++ [event]

/-- What is built of a record that is short enough, and nothing of another. -/
theorem built_iff (host : Field 256) (ts : Field 24) :
    (∃ bundle event, buildRecord a a.provTrigger.bytes host.bytes obsItemMax = some bundle ∧
      obsBuildEvent obsItemMax (asc "detect.file_provenance") ts.bytes bundle = some event) ↔
      eventSize a a.provTrigger.bytes host.bytes ts.bytes < obsItemMax := by
  have hbundle := length_bundle a a.provTrigger.noNul host.noNul
  have hevent := length_eventText ts.bytes (callsText false (bundleCalls a a.provTrigger.bytes host.bytes))
  rw [hbundle] at hevent
  constructor
  · rintro ⟨bundle, event, hb, he⟩
    obtain rfl := text_of_calls hb
    rw [obsBuildEvent] at he
    split at he
    · rename_i hlt
      rwa [hevent] at hlt
    · cases he
  · intro hlt
    have hfits : bundleSize a a.provTrigger.bytes host.bytes < obsItemMax := by
      refine lt_of_le_of_lt ?_ hlt
      simp [eventSize, groupSize, memberSize]
      omega
    refine ⟨callsText false (bundleCalls a a.provTrigger.bytes host.bytes), ?_⟩
    refine ⟨eventText (asc "detect.file_provenance") ts.bytes
      (callsText false (bundleCalls a a.provTrigger.bytes host.bytes)), ?_, ?_⟩
    · rw [buildRecord, calls_eq (by decide), hbundle, if_pos hfits]
    · rw [obsBuildEvent, if_pos (by rw [hevent]; exact hlt)]

theorem ships_iff (a : Record) (json : Bytes) (hjson : activityToJson a 8192 = some json)
    (htrigger : a.provTrigger.bytes ≠ []) (host : Field 256) (ts : Field 24) (q : ObsQueue) :
    Ships json host ts q ↔
      ∃ b, activityFromJson json = some b ∧ eventSize b b.provTrigger.bytes host.bytes ts.bytes < obsItemMax := by
  obtain rfl := text_of_calls hjson
  obtain ⟨b, hb, ⟨-, -, -, hprov, -⟩, -⟩ := Activity.fromJson_printed a
  have hread : b.provTrigger.bytes ≠ [] := hprov ▸ htrigger
  constructor
  · rintro ⟨b', bundle, event, hb', hbundle, hevent, -⟩
    exact ⟨b', hb', (built_iff b' host ts).mp ⟨bundle, event, hbundle, hevent⟩⟩
  · rintro ⟨b', hb', hsize⟩
    obtain rfl := Option.some.inj (hb.symm.trans hb')
    obtain ⟨bundle, event, hbundle, hevent⟩ := (built_iff b host ts).mpr hsize
    refine ⟨b, bundle, event, hb, hbundle, hevent, ?_⟩
    have hpush : maybeShipProvenance (callsText false (activityCalls a)) host (some ts) q = obsQueuePush q event := by
      unfold maybeShipProvenance
      rw [findSub_trigger a htrigger, if_neg (by decide), hb]
      simp only [if_neg hread, hbundle, hevent]
    rw [hpush]
    rw [obsBuildEvent] at hevent
    split at hevent
    · rename_i hlt
      obtain rfl := Option.some.inj hevent
      exact queued_push q (by unfold eventText; exact cons_ne_nil _ _) hlt
    · cases hevent

/-- An executable is started from a directory for temporary files. -/
def fromTmp (path : Field 512) (cmdline : Field 512) : Record :=
  { Activity.processRecord Activity.appComm cmdline with
    path
    provTrigger := ⟨asc "exec_from_transient", by decide, by decide⟩ }

def launched : Record :=
  fromTmp ⟨asc "/tmp/app", by decide, by decide⟩ ⟨asc "app -d", by decide, by decide⟩

theorem launched_ships :
    ∃ json, activityToJson launched 8192 = some json ∧
      Ships json ⟨asc "web1", by decide, by decide⟩ ⟨asc "2026-07-01T00:00:00Z", by decide, by decide⟩
        obsQueueInit := by
  have hprinted : activityToJson launched 8192 = some (callsText false (activityCalls launched)) := by
    unfold activityToJson
    rw [calls_eq (by decide), if_pos (by decide +kernel)]
  have htrigger : launched.provTrigger.bytes ≠ [] := by decide
  refine ⟨_, hprinted, (ships_iff launched _ hprinted htrigger _ _ _).mpr ?_⟩
  have hsize : ∀ b, activityFromJson (callsText false (activityCalls launched)) = some b →
      eventSize b b.provTrigger.bytes (asc "web1") (asc "2026-07-01T00:00:00Z") < obsItemMax := by
    have hall : ((activityFromJson (callsText false (activityCalls launched))).all fun b =>
        eventSize b b.provTrigger.bytes (asc "web1") (asc "2026-07-01T00:00:00Z") < obsItemMax) = true := by
      decide +kernel
    intro b hb
    rw [hb] at hall
    exact of_decide_eq_true hall
  obtain ⟨b, hb, -⟩ := Activity.fromJson_printed launched
  exact ⟨b, hb, hsize b hb⟩

def control (n : Nat) (h : n < 512) : Field 512 :=
  ⟨List.replicate n 1, by rw [length_replicate]; exact h, fun hmem =>
    absurd (eq_of_mem_replicate hmem) (by decide)⟩

theorem quotedSize_control (n : Nat) (h : n < 512) : quotedSize (control n h).bytes = 6 * n + 2 := by
  rw [quotedSize, control, map_replicate, sum_replicate, show escapeSize 1 = 6 from rfl, smul_eq_mul,
    Nat.mul_comm]

def flooded : Record := fromTmp (control 180 (by decide)) (control 511 (by decide))

/-- The record fits its frame and carries a trigger, and nothing is queued for it. -/
theorem flooded_not_queued :
    ∃ json, activityToJson flooded 8192 = some json ∧ flooded.provTrigger.bytes ≠ [] ∧
      ∀ (host : Field 256) (ts : Field 24) (q : ObsQueue), maybeShipProvenance json host (some ts) q = q := by
  have htrigger : flooded.provTrigger.bytes ≠ [] := by decide
  refine ⟨callsText false (activityCalls flooded), ?_, htrigger, fun host ts q => ?_⟩
  · unfold activityToJson
    rw [calls_eq (by decide), if_pos (by decide +kernel)]
  · obtain ⟨b, hb, ⟨-, -, hpath, hprov, hproc⟩, -⟩ := Activity.fromJson_printed flooded
    have hread : b.provTrigger.bytes ≠ [] := hprov ▸ htrigger
    have hcmdline : quotedSize b.proc.cmdline.bytes = 6 * 511 + 2 := hproc ▸ quotedSize_control 511 (by decide)
    have hpathSize : quotedSize b.path.bytes = 6 * 180 + 2 := hpath ▸ quotedSize_control 180 (by decide)
    have hlarge : ¬ bundleSize b b.provTrigger.bytes host.bytes < obsItemMax := by
      simp [bundleSize, writerSize, groupSize, memberSize, hcmdline, hpathSize, obsItemMax]
      omega
    have hnone : buildRecord b b.provTrigger.bytes host.bytes obsItemMax = none := by
      rw [buildRecord, calls_eq (by decide), length_bundle b b.provTrigger.noNul host.noNul, if_neg hlarge]
    unfold maybeShipProvenance
    rw [findSub_trigger flooded htrigger, if_neg (by decide), hb]
    simp only [if_neg hread, hnone]

end Packetsonde.Provenance
