import BigDb.Cluster.RangeMap

/-!
# What can go wrong between nodes

`ClusterError`, and the three questions other code asks of one: whether the map moved
underneath a routed request, whether a node did not answer (as opposed to refusing), and what
a peer would say over the wire. A half-applied write carries its failures as text, and whether
to try it again is decided by looking into that text, so the texts are part of the model.
-/

namespace BigDb.Cluster

/-- `start..end`, as it is printed. -/
def ShardRange.display (r : ShardRange) : String :=
  match r.stop with
  | some stop => toString r.start ++ ".." ++ toString stop
  | none => toString r.start ++ ".."

/-- A refusal of the engine under a node, as the HTTP layer classifies it. -/
structure ApiError where
  status : Nat
  code : String
  message : String
deriving DecidableEq, Repr

/-- A failure of the cluster, or of the node under it. The source's `Local` is `engine` and its
`Partial` is `halfApplied`; what the file's parser and the wire format complain about is kept
as the text they print. -/
inductive ClusterError where
  | engine (e : ApiError)
  | config (why : String)
  | unreachable (node shards why : String)
  | leaderUnreachable (node why : String)
  | peer (node : String) (status : Nat) (code message : String)
  | wire (node why : String)
  | mismatch (node what : String)
  | overflow
  | timeout
  | notServing (node shards : String)
  | notSchemaLeader (node leader : String) (epoch : Nat)
  | schemaLeaseLost (node : String)
  | schemaCatchingUp (node : String)
  | schemaHandover (node : String)
  | refused (why : String)
  | staleRoute (node wanted : String) (epoch mine : Nat)
  | rangeMoving (node shards : String)
  | halfApplied (what : String) (committed failed : List String)
deriving DecidableEq, Repr

namespace ClusterError

/-- The HTTP status this failure is worth. -/
def status : ClusterError → Nat
  | .engine _ | .config _ | .overflow | .halfApplied .. => 500
  | .refused _ => 409
  | .unreachable .. | .leaderUnreachable .. | .notServing .. | .notSchemaLeader ..
  | .schemaLeaseLost _ | .schemaCatchingUp _ | .schemaHandover _ | .staleRoute ..
  | .rangeMoving .. => 503
  | .peer _ status _ _ => status
  | .wire .. | .mismatch .. => 502
  | .timeout => 504

/-- The stable, machine-readable half. -/
def code : ClusterError → String
  | .engine _ => "internal"
  | .config _ => "cluster_misconfigured"
  | .unreachable .. => "owner_unreachable"
  | .leaderUnreachable .. => "schema_leader_unreachable"
  | .peer .. => "peer_refused"
  | .wire .. => "peer_unreadable"
  | .mismatch .. => "peer_mismatch"
  | .overflow => "sum_overflow"
  | .timeout => "query_timeout"
  | .notServing .. => "not_serving"
  | .notSchemaLeader .. => "not_schema_leader"
  | .schemaLeaseLost _ => "schema_lease_lost"
  | .schemaCatchingUp _ => "schema_catching_up"
  | .schemaHandover _ => "schema_handover"
  | .refused _ => "refused"
  | .staleRoute .. => "stale_route"
  | .rangeMoving .. => "range_moving"
  | .halfApplied .. => "partially_applied"

/-- The text a person reads. -/
def display : ClusterError → String
  | .engine e => e.message
  | .config why => "the cluster file is not usable: " ++ why
  | .unreachable node shards why =>
    "`" ++ node ++ "` holds shards " ++ shards ++ " and could not be reached (" ++ why ++ ")"
  | .leaderUnreachable node why =>
    "the schema leader `" ++ node ++ "` could not be reached (" ++ why ++
      "); a key it has never assigned a row id cannot be written until it is back"
  | .peer node status code message =>
    "`" ++ node ++ "` refused with " ++ toString status ++ " " ++ code ++ ": " ++ message
  | .wire node why => "`" ++ node ++ "` sent something unreadable: " ++ why
  | .mismatch node what =>
    "`" ++ node ++ "` answered with " ++ what ++ ", which does not belong to this query"
  | .overflow => "the totals from two nodes do not fit in one number"
  | .timeout => "the request ran out of time"
  | .notSchemaLeader node leader epoch =>
    "`" ++ node ++ "` does not lead the schema; as of epoch " ++ toString epoch ++ " that is " ++
      leader ++ ". Ask there instead"
  | .schemaLeaseLost node =>
    "`" ++ node ++ "` leads the schema and has lost touch with the agreement, so it cannot know " ++
      "it still does; a key it has never assigned a row id waits until it can"
  | .schemaCatchingUp node =>
    "`" ++ node ++ "` holds the schema and has not caught up with the agreement, so it cannot " ++
      "yet know which row ids were promised before it restarted; a key it has never assigned " ++
      "one waits until it has"
  | .schemaHandover node =>
    "`" ++ node ++ "` was just given the schema and has not finished taking it over; a key " ++
      "nobody has assigned a row id waits until it has"
  | .notServing node shards =>
    "`" ++ node ++ "` holds shards " ++ shards ++ " and has lost touch with the agreement, so it " ++
      "has stopped answering for them rather than risk a second node answering too"
  | .refused why => why
  | .rangeMoving node shards =>
    "`" ++ node ++ "` is handing shards " ++ shards ++ " to another node and is not taking " ++
      "writes for them while the last of the copy is made. Send it again in a moment - reads " ++
      "of these shards are still being answered, and nothing else is affected"
  | .staleRoute node wanted epoch mine =>
    "`" ++ node ++ "` was sent records for shards " ++ wanted ++ " under map epoch " ++
      toString epoch ++ ", and its own map is at " ++ toString mine ++ "; the range moved. Send " ++
      "it again - a coordinator that refreshes its map routes to whoever holds them now"
  | .halfApplied what committed failed =>
    what ++ " is half applied: it landed on " ++ ", ".intercalate committed ++
      ", and was refused on " ++ "; ".intercalate failed ++ ". There is no transaction across " ++
      "nodes; a batch that has to be all or nothing is one whose records fall in a single " ++
      "owner's range"

/-- Whether a text has another one in it. -/
def mentions (text what : String) : Bool := text.toList.tails.any (what.toList.isPrefixOf ·)

/-- Whether this failure is a map that moved underneath a routed request, which is the one
failure worth trying again unchanged. -/
def isStaleRoute : ClusterError → Bool
  | .staleRoute .. | .rangeMoving .. => true
  | .peer _ _ code _ => code = "stale_route" || code = "range_moving"
  | .halfApplied _ _ failed =>
    failed.any fun f => mentions f "stale_route" || mentions f "range_moving"
  | _ => false

/-- Whether this failure is "that node did not answer" rather than "that node said no". -/
def isUnreachable : ClusterError → Bool
  | .unreachable .. | .notServing .. | .schemaLeaseLost _ | .staleRoute .. | .rangeMoving ..
  | .timeout => true
  | _ => false

/-- `from_cluster`: the answer a peer gives for a failure, as status, code and message. -/
def response : ClusterError → ApiError
  | .engine e => e
  | e => ⟨e.status, e.code, e.display⟩

end ClusterError

end BigDb.Cluster
