import Aiomsg.ArrayBroker.Basic

/-!
# The broker of the synchronous C++ library

What `broker_main` of `cpp-lib-sync/src/socket.cpp` sends and resends. Waiting messages are in a
vector, to whose end `transmit` appends. `sweep` first takes all expired entries out and then deals
with them, so that it never changes what it goes through.

## Scope

The rest of `broker_main` is that of the C broker, and its connections and buffer are shared with it
through `ArrayBroker`. Here is what differs: where a new entry goes, and how the expired ones are
found.

## Main definitions

* `CppSync.transmit`, `CppSync.sweep`
-/

namespace Aiomsg

namespace CppSync

open ArrayBroker

variable {C D : Type}

def kResend : ℤ := 5000

/-- `st.pending.push_back(std::move(p))`. -/
def pushBack (p : Waiting D) (pending : List (Waiting D)) : List (Waiting D) := pending ++ [p]

/-- The first loop of `sweep`: what it takes out, and what it leaves. -/
def expire (now : ℤ) : List (Waiting D) → List (Waiting D) × List (Waiting D)
  | [] => ([], [])
  | p :: rest =>
    if p.deadline ≤ now then (p :: (expire now rest).1, (expire now rest).2)
    else ((expire now rest).1, p :: (expire now rest).2)

/-- The last loop of `sweep`. -/
def soonest (pending : List (Waiting D)) : Option ℤ :=
  pending.foldl
    (fun soonest p => some (match soonest with
      | none => p.deadline
      | some s => if p.deadline < s then p.deadline else s)) none

variable (kResend : ℤ)

def transmit (st : ArrayBroker C D) (draw : Draw) (target : Option Identity) (data : D)
    (retries : ℕ) : ArrayBroker C D :=
  ArrayBroker.transmit pushBack kResend st draw target data retries

/-- `sweep`, with the soonest of the deadlines that are left. -/
def sweep (now : ℤ) (draws : ℕ → Draw) (st : ArrayBroker C D) : ArrayBroker C D × Option ℤ :=
  let expired := (expire now st.pending).1
  let st₁ := { st with pending := (expire now st.pending).2 }
  let st₂ := st₁.resendAll pushBack kResend draws expired
  (st₂, soonest st₂.pending)

end CppSync

end Aiomsg
