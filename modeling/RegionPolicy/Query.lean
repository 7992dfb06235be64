import RegionPolicy.Engine.Commit
import RegionPolicy.Engine.Movement

/-!
# Queries

The engine answers queries, one line of text each. A query is a record that says what is asked in
its field `op`; the answer is a record with the single field `ok`, or `error` with a report.

## Main definitions

* `Query`, `Query.decode` — what can be asked.
* `QueryError` — why there is no answer.
* `Engine.answer` — the answer to a query.
* `Engine.answerLine`, `Engine.respond` — the answer to a line, as a record and as text.
-/

namespace RegionPolicy

/-- What can be asked. -/
inductive Query where
  /-- The regions at a point. -/
  | regionsAt (position : Position)
  /-- The verdict on a flag. -/
  | evaluate (region : RegionId) (flag : FlagKey) (action : Option FlagAction)
      (actor : Option Actor) (location : Option Position)
  /-- What comes of a move. -/
  | transition (origin destination : Position) (action : Option FlagAction)
      (actor : Option Actor)
  /-- How the flags of a region come about. -/
  | inspect (region : RegionId)
  /-- To load the regions anew. -/
  | reload

namespace Query

open Json in
/-- The fields of a query that asks for `op`. -/
def fields? (op : String) : Option (Json.Fields Query) :=
  if op = "regions_at" then some (regionsAt <$> .required "position" Position.decode)
  else if op = "evaluate" then
    some (evaluate <$> .required "region" RegionId.decode
      <*> .required "flag" FlagKey.decode
      <*> .optional "action" (Decoder.option FlagAction.decode) none
      <*> .optional "actor" (Decoder.option Actor.decode) none
      <*> .optional "location" (Decoder.option Position.decode) none)
  else if op = "transition" then
    some (transition <$> .required "from" Position.decode
      <*> .required "to" Position.decode
      <*> .optional "action" (Decoder.option FlagAction.decode) none
      <*> .optional "actor" (Decoder.option Actor.decode) none)
  else if op = "inspect" then some (inspect <$> .required "region" RegionId.decode)
  else if op = "reload" then some (.done reload)
  else none

/-- Reads a query. -/
def decode : Json.Decoder Query := fun d =>
  match Json.splitTag "op" d with
  | .error e => .error e
  | .ok (op, rest) =>
    match fields? op with
    | some fields => fields.decode rest
    | none => .error .form

/-- The action of a query that names none. -/
def defaultAction : FlagAction := ⟨"regionward:query"⟩

end Query

/-- Why there is no answer. -/
inductive QueryError where
  /-- The line is no query. -/
  | malformed (cause : Json.DecodeError)
  | regionNotFound (id : RegionId)
  /-- No verdict was reached. -/
  | evaluation (cause : HandlerError)
  /-- No decision on a move was reached. -/
  | transition (cause : HandlerError)
  /-- The regions could not be loaded. -/
  | reload (cause : StoreError)
deriving DecidableEq

/-- The report of a query without an answer. -/
def QueryError.message : QueryError → String
  | malformed cause =>
    match cause.messageInRecord? with
    | some detail => "Malformed query: " ++ detail
    | none => "Malformed query"
  | regionNotFound id => "Region not found: " ++ id.text
  | evaluation cause => cause.message
  | transition cause => cause.transitionMessage
  | reload cause => cause.message

/-- A region as it is listed. -/
def Region.listing (r : Region) : Json.Value :=
  .object
    [("id", .text r.id.text), ("name", .text r.displayName), ("priority", .ofInt r.priority.toInt)]

namespace Engine

variable {δ σ : Type} [DefinitionSource δ] [ArtifactStore σ]

/-- The answer to a query. -/
def answer (e : Engine δ σ) : Query → Except QueryError Json.Value × Engine δ σ
  | .regionsAt position => (.ok (.ofList Region.listing (e.index.regionsAt position)), e)
  | .evaluate id flag action actor location =>
    match e.index.get? id with
    | none => (.error (.regionNotFound id), e)
    | some region =>
      match e.evaluate { region, action := action.getD Query.defaultAction, actor, location }
          flag with
      | (.error failure, e) => (.error (.evaluation failure), e)
      | (.ok verdict, e) => (.ok verdict.toJson, e)
  | .transition origin destination action actor =>
    match e.transition ⟨actor, origin, destination, action.getD Query.defaultAction⟩ with
    | (.error failure, e) => (.error (.transition failure), e)
    | (.ok decision, e) => (.ok decision.toJson, e)
  | .inspect id =>
    match e.index.get? id with
    | none => (.error (.regionNotFound id), e)
    | some region =>
      let (resolutions, e) := e.inspect region
      (.ok (.object
        [("flags", .ofList (fun r => .text r.summary) resolutions),
          ("region", .text region.id.text)]), e)
  | .reload =>
    match e.reload with
    | (.error failure, e) => (.error (.reload failure), e)
    | (.ok count, e) => (.ok (.object [("regions", .ofNat count)]), e)

/-- The record in which an answer is given. -/
def response : Except QueryError Json.Value → Json.Value
  | .ok value => .object [("ok", value)]
  | .error failure => .object [("error", .text failure.message)]

/-- The answer to a line. -/
def answerLine (e : Engine δ σ) (line : String) : Json.Value × Engine δ σ :=
  match Json.decodeText Query.decode line with
  | .error cause => (response (.error (.malformed cause)), e)
  | .ok query =>
    let (result, e) := e.answer query
    (response result, e)

/-- The answer to a line as text. -/
def respond (e : Engine δ σ) (line : String) : String × Engine δ σ :=
  let (record, e) := e.answerLine line
  (record.render, e)

end Engine

end RegionPolicy
