import Redic.Potty.Progress
import Redic.Recovery.Survival

/-! # A host that is left alone

When no command comes in and nothing stops the process, its threads bring the whole log to the
file. A kill loses nothing from then on, and the next process boots with the same log.
-/
namespace Redic
open BufferedFile EventRun RecordStream

variable {S : Type} [KeyStore S]

namespace Host
variable {host host' : Host S} {size cap : ℕ}

/-- A mutation that the tank is about to feed weighs more than one in the pipeline, and a job that
was not synced more than one that was. -/
def left (host : Host S) : ℕ :=
  25 * host.feeding.toList.length + 2 * host.potty.work + if (host.streams 0).synced then 0 else 1

end Host

open Host

end Redic
