import Packetsonde.Recipe.Runtime

/-!
# The recipe interpreter (`recipe_engine.c`)

`ps_recipe_run` walks the steps of a recipe over the state `Rt`: the run-time bindings, the budget
counters, the first diagnostic, the findings, and the state of the I/O backend behind the
callbacks of `ps_recipe_io`. A handler is a `Prog` over that state; `.ok` is the return code 0,
`.err` is -1.

* Every call into the backend goes through `ioCall`, which records it in `trace`. The trace also
  shows each budget check, each step handed to a handler, each connection a handler found, and
  where declared names stay unbound. It is no part of the program: it is what the results about
  calls and handlers are stated over.
* The clock is a function of how often it has been read, the regex library a pair of functions.
* Two loops are not structural. The receive loop reads at least one byte a round, so `max_bytes`
  rounds are enough. The cipher-peeling loop of `tls_enum` ends when the server stops making
  progress or the budget is used up; it takes the bound `fuel`.
-/

namespace Packetsonde.Recipe

open Packetsonde.Lib
open Packetsonde.Lib.Prog

/-- `struct ps_tls_info`, the fields a successful upgrade binds. -/
structure TlsInfo where
  version : Bytes
  cipher : Bytes
  ja4 : Bytes
  ja4s : Bytes
  ja4x : Bytes
  certSubjectCn : Bytes
  certIssuerCn : Bytes
  certNotAfter : Bytes
  certSigAlg : Bytes
  certKeyType : Bytes
  certSan : Bytes
  certSelfSigned : Bool
  certDaysToExpiry : Int64
  certKeyBits : Int64

/-- `struct ps_tls_probe_result`. -/
structure TlsProbeResult where
  ok : Bool
  cipher : Bytes

/-- `struct ps_recipe_io` over a backend state: each callback may be missing. A connect returns the
handle, negative on failure; `recvSome` returns `none` on error and no bytes at the end of the
stream; `tlsSession` and `tlsProbe` return `none` for a non-zero return code. -/
structure RecipeIo (σ : Type) where
  connectTcp : Option (σ → Bytes → Int32 → Int32 → Int32 × σ)
  connectUdp : Option (σ → Bytes → Int32 → Int32 → Int32 × σ)
  sendAll : Option (σ → Int32 → Bytes → Int32 × σ)
  recvSome : Option (σ → Int32 → Nat → Option Bytes × σ)
  closeConn : Option (σ → Int32 → σ)
  tlsUpgrade : Option (σ → Int32 → Bytes → Option (List Bytes) → Int32 → Int32 × σ)
  tlsSession : Option (σ → Int32 → Option TlsInfo × σ)
  tlsProbe : Option (σ → Bytes → Int32 → Bytes → Bytes → Option Bytes → Int32 →
    Option TlsProbeResult × σ)

/-- The POSIX regex library: whether a pattern compiles, and the offsets of the whole match and of
the first groups, if the text matches. -/
structure Regex where
  comp : Bytes → Bool
  exec : Bytes → Bytes → Nat → Option (List (Int × Int))

/-- What a run is given besides the recipe. -/
structure Host (σ : Type) where
  target : Target
  io : RecipeIo σ
  regex : Regex
  clock : Nat → Int64
  sink : Bool

/-- What the handlers read: the surroundings, and the recipe's budgets. -/
structure Env (σ : Type) extends Host σ where
  budgets : Budgets

structure Finding where
  kind : Bytes
  severity : Bytes
  confidence : Bytes
  title : Bytes
  evidence : Bytes
  deriving DecidableEq, Repr

/-- Where a run passes a step that declares names without binding them. -/
inductive LeftOut where
  | untaken (then_ : List Step)
  | unmatchedIn (captures : List Capture)
  | unmatchedAny (out : Option Bytes)
  | handshakeFailed

def LeftOut.decls : LeftOut → List (Bytes × Bt)
  | .untaken then_ => stepsDecls then_
  | .unmatchedIn captures => captures.map fun c => (c.name, c.as.bt)
  | .unmatchedAny out => out.toList.map fun name => (name, .string)
  | .handshakeFailed => tlsBindings

/-- What the trace of a run shows: a budget counter incremented, a step handed to its handler, the
handle under which a handler found the connection its step names, names left unbound, and the calls
into the backend. A `recv_some` call also shows the mode, how many bytes the step already holds,
and the result. -/
inductive Event where
  | budgetStep
  | budgetTls
  | enter (s : Step)
  | found (conn : Bytes) (handle : Int32)
  | leftOut (why : LeftOut)
  | connect (fd : Int32)
  | sendAll (conn : Int32) (buf : Bytes)
  | recvSome (conn : Int32) (until_ : Until) (held cap : Nat) (result : Option Bytes)
  | closeConn (conn : Int32)
  | tlsUpgrade (conn : Int32)
  | tlsSession (conn : Int32)
  | tlsProbe (proto cipherList : Bytes)

/-- How often `budget_tls` was called. -/
def tlsTicks (trace : List Event) : Nat :=
  trace.countP fun e => match e with
    | .budgetTls => true
    | _ => false

/-- `struct rt`. -/
structure Rt (σ : Type) where
  bs : List RtBinding
  stepsDone : Int32
  tlsProbesDone : Int32
  recvBytesTotal : Nat
  err : Option RtErr
  findings : List Finding
  clockReads : Nat
  io : σ
  trace : List Event

variable {σ α : Type}

/-! ## Primitives -/

def keepFirst (old : Option RtErr) (e : RtErr) : Option RtErr :=
  match old with
  | some first => some first
  | none => some e

/-- `rt_err`. -/
def rtErr (e : RtErr) : Prog (Rt σ) Unit :=
  modify fun rt => { rt with err := keepFirst rt.err e }

/-- `rt_err` and `return -1`. -/
def raise (e : RtErr) : Prog (Rt σ) α := do
  rtErr e
  fail

def reading (f : List RtBinding → Except RtErr α) : Prog (Rt σ) α := do
  match ← gets fun rt => f rt.bs with
  | .ok a => pure a
  | .error e => raise e

def ioCall (f : σ → α × σ) (event : α → Event) : Prog (Rt σ) α := fun rt =>
  (.ok (f rt.io).1, { rt with io := (f rt.io).2, trace := rt.trace ++ [event (f rt.io).1] })

@[simp] theorem ioCall_run (f : σ → α × σ) (event : α → Event) (rt : Rt σ) :
    ioCall f event rt = (.ok (f rt.io).1,
      { rt with io := (f rt.io).2, trace := rt.trace ++ [event (f rt.io).1] }) := rfl

def provided (callback : Option α) (name : Bytes) : Prog (Rt σ) α :=
  match callback with
  | some f => pure f
  | none => raise (.notProvided name)

/-- `rt_bind_new` and the assignment of the value: whether there was room. -/
def rtBindNew (name : Bytes) (val : RtVal) : Prog (Rt σ) Bool := fun rt =>
  if rt.bs.length ≥ rtBindingsMax then
    (.ok false, { rt with err := keepFirst rt.err .bindingOverflow })
  else (.ok true, { rt with bs := rt.bs ++ [⟨name, val⟩] })

def bindOrFail (name : Bytes) (val : RtVal) : Prog (Rt σ) Unit := do
  if ← rtBindNew name val then pure () else fail

/-- `budget_step`. -/
def budgetStep (env : Env σ) : Prog (Rt σ) Unit := do
  modify fun rt =>
    { rt with stepsDone := rt.stepsDone + 1, trace := rt.trace ++ [.budgetStep] }
  if (← gets (·.stepsDone)) > env.budgets.maxSteps then raise (.maxSteps env.budgets.maxSteps)
  else do
    let now ← gets fun rt => env.clock rt.clockReads
    modify fun rt => { rt with clockReads := rt.clockReads + 1 }
    if now - env.clock 0 > env.budgets.maxWallclockMs.toInt64 then
      raise (.maxWallclockMs env.budgets.maxWallclockMs)
    else pure ()

/-- `budget_tls`. -/
def budgetTls (env : Env σ) : Prog (Rt σ) Unit := do
  modify fun rt =>
    { rt with tlsProbesDone := rt.tlsProbesDone + 1, trace := rt.trace ++ [.budgetTls] }
  if (← gets (·.tlsProbesDone)) > env.budgets.maxTlsProbes then
    raise (.maxTlsProbes env.budgets.maxTlsProbes)
  else pure ()

/-- The handle of the connection a step of opcode `op` names. -/
def connOf (op conn : Bytes) (bs : List RtBinding) : Except RtErr Int32 :=
  match rtLookup bs conn with
  | some (.conn h) => .ok h
  | _ => .error (.badConn op conn)

/-- `connOf` in a handler. -/
def connHandle (op conn : Bytes) : Prog (Rt σ) Int32 := do
  let h ← reading (connOf op conn)
  modify fun rt => { rt with trace := rt.trace ++ [.found conn h] }
  pure h

/-- A step that goes on without binding what it declares. -/
def leaveOut (why : LeftOut) : Prog (Rt σ) Unit :=
  modify fun rt => { rt with trace := rt.trace ++ [.leftOut why] }

/-! ## Handlers -/

/-- `do_connect`. -/
def doConnect (env : Env σ) (udp : Bool) (host port : Ref) (timeoutMs : Int32) (out : Bytes) :
    Prog (Rt σ) Unit := do
  let hostS ← reading fun bs => expandTemplate env.target bs host.text
  let portI ← reading fun bs => resolveAsInt env.target bs port
  if portI ≤ 0 ∨ portI > 65535 then raise .connectPort
  else do
    let connect ← if udp then provided env.io.connectUdp (asc "connect_udp")
      else provided env.io.connectTcp (asc "connect_tcp")
    let fd ← ioCall (fun w => connect w hostS portI.toInt32 timeoutMs) .connect
    if fd < 0 then raise (.connectFailed hostS portI.toInt32)
    else bindOrFail out (.conn fd)

/-- `do_send`. -/
def doSend (env : Env σ) (conn : Bytes) (bytes : SendBytes) : Prog (Rt σ) Unit := do
  let h ← connHandle (asc "send") conn
  let buf ← match bytes with
    | .template text => reading fun bs => expandTemplate env.target bs text
    | .literal b => pure b
  let sendAll ← provided env.io.sendAll (asc "send_all")
  let rc ← ioCall (fun w => sendAll w h buf) fun _ => .sendAll h buf
  if rc ≠ 0 then raise (.sendFailed buf.length) else pure ()

/-- `(size_t)i` for a C `int`. -/
def toSizeT (i : Int32) : Nat := (i.toInt % 2 ^ 64).toNat

/-- Where the `until` condition fires in a chunk, the bytes the step keeps. -/
def untilCut (until_ : Until) (got chunk : Bytes) : Option Bytes :=
  match until_ with
  | .newline => if 10 ∈ chunk then some (got ++ chunk.take (chunk.idxOf 10 + 1)) else none
  | .nBytes n =>
    if (got ++ chunk).length ≥ toSizeT n then some ((got ++ chunk).take (toSizeT n)) else none
  | .regex _ => none

/-- The loop of `do_recv`: the bytes the step keeps. -/
def recvLoop (recvSome : σ → Int32 → Nat → Option Bytes × σ) (h : Int32) (until_ : Until)
    (cap : Nat) : Nat → Bytes → Prog (Rt σ) Bytes
  | 0, got => pure got
  | rounds + 1, got =>
    if got.length < cap then do
      let r ← ioCall (fun w => recvSome w h (cap - got.length))
        (.recvSome h until_ got.length (cap - got.length))
      match r with
      | none => raise .recvIo
      | some [] => pure got
      | some chunk =>
        match untilCut until_ got chunk with
        | some kept => pure kept
        | none => recvLoop recvSome h until_ cap rounds (got ++ chunk)
    else pure got

/-- `do_recv`. -/
def doRecv (env : Env σ) (conn : Bytes) (until_ : Until) (maxBytes : Int32) (out : Bytes) :
    Prog (Rt σ) Unit := do
  let h ← connHandle (asc "recv") conn
  if maxBytes ≤ 0 ∨ maxBytes > env.budgets.maxRecvBytes then raise (.recvMaxBytes maxBytes)
  else if (← gets (·.recvBytesTotal)) + toSizeT maxBytes > toSizeT env.budgets.maxRecvBytes then
    raise .maxRecvBytes
  else do
    let recvSome ← provided env.io.recvSome (asc "recv_some")
    let got ← recvLoop recvSome h until_ (toSizeT maxBytes) (toSizeT maxBytes) []
    modify fun rt => { rt with recvBytesTotal := rt.recvBytesTotal + got.length }
    bindOrFail out (.bytes got)

/-- `close_conn`, where the backend has it. -/
def closeHandle (env : Env σ) (h : Int32) : Prog (Rt σ) Unit :=
  match env.io.closeConn with
  | some closeConn => ioCall (fun w => ((), closeConn w h)) fun _ => .closeConn h
  | none => pure ()

/-- `cb->u.conn = -1` for the first binding of that name. -/
def markClosed (conn : Bytes) : List RtBinding → List RtBinding
  | [] => []
  | b :: bs => if b.name = conn then { b with val := .conn (-1) } :: bs else b :: markClosed conn bs

/-- `do_close`. -/
def doClose (env : Env σ) (conn : Bytes) : Prog (Rt σ) Unit := do
  let h ← connHandle (asc "close") conn
  closeHandle env h
  modify fun rt => { rt with bs := markClosed conn rt.bs }

/-- `do_match` in `any` mode. -/
def doMatchAny (env : Env σ) (any regex : Bytes) (out : Option Bytes) : Prog (Rt σ) Unit := do
  let items ← reading fun bs =>
    match rtLookup bs any with
    | some (.strlist items) => .ok items
    | _ => .error (.matchAnyType any)
  if !env.regex.comp regex then raise .matchRegex
  else
    match items.find? fun item => (env.regex.exec regex item 0).isSome, out with
    | some hit, some name => bindOrFail name (.str hit)
    | some _, none => pure ()
    | none, _ => leaveOut (.unmatchedAny out)

def intCaptureSize : Nat := 32

/-- The loop of `do_match` over the captures, with the matches of their groups. -/
def bindCaptures (hay : Bytes) : List Capture → List (Int × Int) → Prog (Rt σ) Unit
  | [], _ => pure ()
  | c :: cs, groups =>
    let so := (groups.headD (-1, -1)).1
    let eo := (groups.headD (-1, -1)).2
    let text := (hay.drop so.toNat).take (eo - so).toNat
    if so < 0 then raise (.captureUnmatched c.name)
    else match c.as with
      | .string => do
        bindOrFail c.name (.str text)
        bindCaptures hay cs groups.tail
      | .int =>
        -- the binding is there before the length is checked
        if (eo - so).toNat ≥ intCaptureSize then do
          bindOrFail c.name (.int 0)
          raise .intCaptureTooLong
        else do
          bindOrFail c.name (.int (strtoll text).1)
          bindCaptures hay cs groups.tail

/-- `do_match` in `in` mode. -/
def doMatchIn (env : Env σ) (in_ regex : Bytes) (captures : List Capture) :
    Prog (Rt σ) Unit := do
  let hay ← reading fun bs =>
    match rtLookup bs in_ with
    | none => .error (.matchUnknown in_)
    | some (.bytes b) => .ok (cstr b)
    | some (.str s) => .ok s
    | some _ => .error (.matchInType in_)
  if !env.regex.comp regex then raise .matchRegex
  else match env.regex.exec regex hay (captures.length + 1) with
    | none => leaveOut (.unmatchedIn captures)
    | some groups => bindCaptures hay captures groups.tail

/-- Size of the evidence buffer of `do_emit`. -/
def evidenceCap : Nat := 8192

/-- `do_emit`. -/
def doEmit (env : Env σ) (kind severity confidence title : Bytes) (fields : List EmitField) :
    Prog (Rt σ) Unit := do
  let titleS ← reading fun bs => expandTemplate env.target bs title
  match ← gets fun rt => buildEvidenceJson env.target rt.bs evidenceCap fields with
  | .error e => do
    match e with
      | some e => rtErr e
      | none => pure ()
    raise .evidenceOverflow
  | .ok evidence =>
    if env.sink then
      modify fun rt =>
        { rt with findings := rt.findings ++ [⟨kind, severity, confidence, titleS, evidence⟩] }
    else pure ()

/-- The condition of `do_if`. -/
def condHolds (env : Env σ) (cond : Cond) (bs : List RtBinding) : Except RtErr Bool :=
  match cond with
  | .exists_ binding => .ok (rtLookup bs binding).isSome
  | .equals binding literal =>
    match rtLookup bs binding with
    | none => .ok false
    | some (.str s) => .ok (s = literal)
    | some (.int i) => .ok (decimal i.toInt = literal)
    | some (.bytes b) => .ok (cstr b = literal)
    | some _ => .ok (literal = [])
  | .matches_ binding literal =>
    match rtLookup bs binding with
    | none => .ok false
    | some v =>
      let hay := match v with
        | .str s => s
        | .bytes b => cstr b
        | _ => []
      if !env.regex.comp literal then .error .ifMatchesRegex
      else .ok (env.regex.exec literal hay 0).isSome
  | .anyMatches list regex =>
    match rtLookup bs list with
    | some (.strlist items) =>
      if !env.regex.comp regex then .error .ifAnyMatchesRegex
      else .ok (items.any fun item => (env.regex.exec regex item 0).isSome)
    | _ => .ok false
  | .anyIn list set =>
    match rtLookup bs list with
    | some (.strlist items) => .ok (items.any fun item => set.contains item)
    | _ => .ok false

/-- The bindings of an upgraded connection, in the order `do_tls_upgrade` makes them. -/
def tlsInfoBindings (info : TlsInfo) : List RtBinding :=
  [⟨asc "tls_version", .str (cstr info.version)⟩, ⟨asc "tls_cipher", .str (cstr info.cipher)⟩,
   ⟨asc "tls_ja4", .str (cstr info.ja4)⟩, ⟨asc "tls_ja4s", .str (cstr info.ja4s)⟩,
   ⟨asc "tls_ja4x", .str (cstr info.ja4x)⟩,
   ⟨asc "cert_subject_cn", .str (cstr info.certSubjectCn)⟩,
   ⟨asc "cert_issuer_cn", .str (cstr info.certIssuerCn)⟩,
   ⟨asc "cert_not_after", .str (cstr info.certNotAfter)⟩,
   ⟨asc "cert_sig_alg", .str (cstr info.certSigAlg)⟩,
   ⟨asc "cert_key_type", .str (cstr info.certKeyType)⟩,
   ⟨asc "cert_san", .str (cstr info.certSan)⟩,
   ⟨asc "cert_self_signed", .str (if info.certSelfSigned then asc "1" else asc "0")⟩,
   ⟨asc "cert_days_to_expiry", .int info.certDaysToExpiry⟩,
   ⟨asc "cert_key_bits", .int info.certKeyBits⟩]

/-- Bindings made one after the other: the first `required` must succeed, the return code of the
others is dropped. -/
def bindAll : (required : Nat) → List RtBinding → Prog (Rt σ) Unit
  | _, [] => pure ()
  | 0, b :: bs => do
    let _ ← rtBindNew b.name b.val
    bindAll 0 bs
  | required + 1, b :: bs => do
    bindOrFail b.name b.val
    bindAll required bs

/-- `do_tls_upgrade`. A failed handshake leaves the bindings unset and is no error. -/
def doTlsUpgrade (env : Env σ) (conn : Bytes) (sni : Ref) (alpn : Option (List Bytes))
    (timeoutMs : Int32) : Prog (Rt σ) Unit := do
  let h ← connHandle (asc "tls_upgrade") conn
  let tlsUpgrade ← provided env.io.tlsUpgrade (asc "tls_upgrade")
  let tlsSession ← provided env.io.tlsSession (asc "tls_upgrade")
  budgetTls env
  let sniS ← reading fun bs => expandTemplate env.target bs sni.text
  let rc ← ioCall (fun w => tlsUpgrade w h sniS alpn timeoutMs) fun _ => .tlsUpgrade h
  if rc ≠ 0 then leaveOut .handshakeFailed
  else do
    match ← ioCall (fun w => tlsSession w h) fun _ => .tlsSession h with
    | none => raise .tlsSession
    | some info => bindAll 2 (tlsInfoBindings info)

/-- What `tls_enum` has found so far: `acc_protos` and `acc_ciphers`. -/
structure Accepted where
  protos : List Bytes
  ciphers : List Bytes

/-- What one protocol's peeling keeps from round to round: `excl`, `last` and `proto_added`. -/
structure Peel where
  excl : Bytes
  last : Bytes
  added : Bool

/-- `excl` and `last` before the first round. -/
def peelStart : Peel := ⟨asc "ALL:COMPLEMENTOFALL:@SECLEVEL=0", [], false⟩

/-- One round that made progress: the protocol is noted once, the cipher is noted and excluded from
the next round. The list sizes and the `snprintf` buffers bound what is kept. -/
def peelRound (proto cipher : Bytes) (p : Peel) (acc : Accepted) : Peel × Accepted :=
  let note := !p.added && acc.protos.length < 16
  (⟨(p.excl ++ asc ":!" ++ cipher).take 2047, cipher.take 127, p.added || note⟩,
   ⟨if note then acc.protos ++ [proto] else acc.protos,
    if acc.ciphers.length < 256 then acc.ciphers ++ [(proto ++ asc ":" ++ cipher).take 199]
    else acc.ciphers⟩)

/-- The callback `tls_probe` with the fields of the step it is called with. -/
def probeOnce (env : Env σ)
    (tlsProbe : Bytes → Bytes → σ → Option TlsProbeResult × σ) (proto excl : Bytes) :
    Prog (Rt σ) (Option TlsProbeResult) := do
  budgetTls env
  ioCall (tlsProbe proto excl) fun _ => .tlsProbe proto excl

def peelLoop (env : Env σ) (tlsProbe : Bytes → Bytes → σ → Option TlsProbeResult × σ)
    (proto : Bytes) : Nat → Peel → Accepted → Prog (Rt σ) Accepted
  | 0, _, _ => outOfFuel
  | fuel + 1, p, acc => do
    match ← probeOnce env tlsProbe proto p.excl with
    | none => pure acc
    | some res =>
      if !res.ok || (cstr res.cipher).isEmpty || cstr res.cipher = p.last then pure acc
      else
        let (p', acc') := peelRound proto (cstr res.cipher) p acc
        peelLoop env tlsProbe proto fuel p' acc'

/-- The loop of `do_tls_enum` over the protocols. -/
def enumLoop (env : Env σ) (tlsProbe : Bytes → Bytes → σ → Option TlsProbeResult × σ)
    (fuel : Nat) : List Bytes → Accepted → Prog (Rt σ) Accepted
  | [], acc => pure acc
  | proto :: protos, acc => do
    let acc' ← peelLoop env tlsProbe proto fuel peelStart acc
    enumLoop env tlsProbe fuel protos acc'

/-- `do_tls_enum`. -/
def doTlsEnum (env : Env σ) (fuel : Nat) (host port : Ref) (protocols : List Bytes)
    (starttls : Option Bytes) (timeoutMs : Int32) : Prog (Rt σ) Unit := do
  let tlsProbe ← provided env.io.tlsProbe (asc "tls_probe")
  let hostS ← reading fun bs => expandTemplate env.target bs host.text
  let portI ← reading fun bs => resolveAsInt env.target bs port
  let protos := if protocols.isEmpty then tlsProtocols else protocols
  let probe := fun proto excl w => tlsProbe w hostS portI.toInt32 proto excl starttls timeoutMs
  let acc ← enumLoop env probe fuel protos ⟨[], []⟩
  bindOrFail (asc "tls_accepted_protocols") (.strlist acc.protos)
  bindOrFail (asc "tls_accepted_ciphers") (.strlist acc.ciphers)

/-! ## Runs -/

mutual

/-- The dispatch of `run_steps`, with `do_if`. -/
def doStep (env : Env σ) (fuel : Nat) : Step → Prog (Rt σ) Unit
  | .connect udp host port timeoutMs out => doConnect env udp host port timeoutMs out
  | .send conn bytes => doSend env conn bytes
  | .recv conn until_ maxBytes out => doRecv env conn until_ maxBytes out
  | .close conn => doClose env conn
  | .matchIn in_ regex captures => doMatchIn env in_ regex captures
  | .matchAny any regex out => doMatchAny env any regex out
  | .emit kind severity confidence title fields => doEmit env kind severity confidence title fields
  | .if_ cond then_ => do
    if ← reading (condHolds env cond) then runSteps env fuel then_ else leaveOut (.untaken then_)
  | .tlsUpgrade conn sni alpn timeoutMs => doTlsUpgrade env conn sni alpn timeoutMs
  | .tlsEnum host port protocols starttls timeoutMs =>
    doTlsEnum env fuel host port protocols starttls timeoutMs

/-- `run_steps`. -/
def runSteps (env : Env σ) (fuel : Nat) : List Step → Prog (Rt σ) Unit
  | [] => pure ()
  | s :: ss => do
    budgetStep env
    modify fun rt => { rt with trace := rt.trace ++ [.enter s] }
    doStep env fuel s
    runSteps env fuel ss

end

/-- The state a run starts in. The clock has been read once, for `start_ms`. -/
def rtInit (w : σ) : Rt σ :=
  { bs := []
    stepsDone := 0
    tlsProbesDone := 0
    recvBytesTotal := 0
    err := none
    findings := []
    clockReads := 1
    io := w
    trace := [] }

/-- The handle of a connection that is still open: type `conn` and a handle that is not -1. -/
def RtVal.openHandle : RtVal → Option Int32
  | .conn h => if h ≥ 0 then some h else none
  | _ => none

/-- The final sweep of `ps_recipe_run`: close every connection still open. -/
def closeOpen (env : Env σ) : List RtBinding → Prog (Rt σ) Unit
  | [] => pure ()
  | b :: bs =>
    match b.val.openHandle with
    | some h => do
      closeHandle env h
      closeOpen env bs
    | none => closeOpen env bs

/-- `ps_recipe_run`, from the backend state `w`: how it ended, and the state it ended in. A run
whose loop is cut off by the bound has not reached its end. -/
def psRecipeRun (host : Host σ) (r : PsRecipe) (fuel : Nat) (w : σ) : Outcome Unit × Rt σ :=
  let env : Env σ := { host with budgets := r.budgets }
  match runSteps env fuel r.steps (rtInit w) with
  | (.fuel, rt) => (.fuel, rt)
  | (o, rt) => (o, (closeOpen env rt.bs rt).2)

/-! ## A backend over one byte stream -/

/-- A connection that is one byte stream, read in chunks of at most `size` bytes. -/
def streamRecv (size : Nat) (stream : Bytes) (_ : Int32) (cap : Nat) : Option Bytes × Bytes :=
  (some (stream.take (min cap size)), stream.drop (min cap size))

def streamIo (size : Nat) : RecipeIo Bytes where
  connectTcp := some fun w _ _ _ => (3, w)
  connectUdp := none
  sendAll := none
  recvSome := some (streamRecv size)
  closeConn := some fun w _ => w
  tlsUpgrade := none
  tlsSession := none
  tlsProbe := none

def streamHost (size : Nat) : Host Bytes where
  target := ⟨asc "192.0.2.7", 25⟩
  io := streamIo size
  regex := ⟨fun _ => true, fun _ _ _ => none⟩
  clock := fun _ => 0
  sink := true

end Packetsonde.Recipe
