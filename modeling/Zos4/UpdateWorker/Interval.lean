import Zos4.UpdateWorker.Worker

/-!
# The loop of the worker

`UpdateWithInterval`: in each round the worker takes its networks in the order in which the
map of the clients happens to be ranged over, and retries the update of each until it
succeeds or ten seconds are over. The attempts there is time for are given with what the
registrar answers in each and what its calls come to; the waits are left out.
-/

namespace Zos4.UpdateWorker

open Zos4.Files

structure Attempt where
  version : Except WorkerError Bytes
  calls : Calls

/-- The turn of a network: the attempts there is time for, of which there is one. -/
structure NetworkTurn where
  network : Network
  first : Attempt
  more : List Attempt

/-- The clients are in a map, so a round has one turn for each network. -/
structure Round where
  turns : List NetworkTurn
  nodup : (turns.map NetworkTurn.network).Nodup

namespace Worker

variable (w : Worker)

/-- `backoff.Retry`, of the attempts there is time for. -/
def retry (network : Network) : Attempt → List Attempt → Hub → Option WorkerError × Hub
  | attempt, [], hub => w.updateZosVersion network attempt.version attempt.calls hub
  | attempt, next :: more, hub =>
      match w.updateZosVersion network attempt.version attempt.calls hub with
      | (none, hub) => (none, hub)
      | (some _, hub) => retry network next more hub

/-- An error is logged, and the next network is taken. -/
def turn (hub : Hub) (t : NetworkTurn) : Hub := (w.retry t.network t.first t.more hub).2

def round (hub : Hub) (r : Round) : Hub := r.turns.foldl w.turn hub

def UpdateWithInterval (rounds : List Round) (hub : Hub) : Hub := rounds.foldl w.round hub

end Worker

end Zos4.UpdateWorker
