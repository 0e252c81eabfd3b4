import Aiomsg.ArrayBroker.Basic
import Aiomsg.Lib.SwapRemove

/-!
# The broker of the Zig library

What `zig-lib/src/aiomsg.zig` sends and resends. Waiting messages are in an `ArrayList`, to whose
end `brokerTransmit` appends.

`brokerSweep` goes through that list with an index, takes expired entries out with `swapRemove` and
transmits while it goes. So the entry that comes to stand at the index may be any later one, and one
that has only just been appended. It is modelled with a bound on the number of its rounds, and is
`none` if they do not suffice.

## Scope

Where the source finds no memory it gives the message up and sends nothing; here memory is there.
The list is a `List`, whose `swapRemove` is that of the array, and an index beyond its end is where
the loop stops.

Random ids and clock readings come with the call, one for each round that transmits.

## Main definitions

* `ZigLib.brokerTransmit`, `ZigLib.brokerSweep`
-/

namespace Aiomsg

namespace ZigLib

open ArrayBroker

variable {C D : Type}

def resendMs : ℤ := 5000

/-- `self.pending.append(p)`. -/
def append (p : Waiting D) (pending : List (Waiting D)) : List (Waiting D) := pending ++ [p]

variable (resendMs : ℤ)

def brokerTransmit (b : ArrayBroker C D) (draw : Draw) (target : Option Identity) (data : D)
    (retries : ℕ) : ArrayBroker C D :=
  b.transmit append resendMs draw target data retries

/-- The loop of `brokerSweep`. -/
def sweepLoop (now : ℤ) : ℕ → (ℕ → Draw) → ℕ → ArrayBroker C D → Option (ArrayBroker C D)
  | 0, _, _, _ => none
  | rounds + 1, draws, i, b =>
    match b.pending[i]? with
    | none => some b
    | some p =>
      if p.deadline ≤ now then
        let b₁ := { b with pending := b.pending.swapRemove i }
        sweepLoop now rounds (fun k => draws (k + 1)) i
          (b₁.resend append resendMs (draws 0) p)
      else sweepLoop now rounds draws (i + 1) b

def brokerSweep (rounds : ℕ) (now : ℤ) (draws : ℕ → Draw) (b : ArrayBroker C D) :
    Option (ArrayBroker C D) :=
  sweepLoop resendMs now rounds draws 0 b

end ZigLib

end Aiomsg
