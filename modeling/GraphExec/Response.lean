import GraphExec.Error
import GraphExec.Request

/-!
# Responses

A response has data unless its request could not be run, and the errors that came up.
-/

namespace GraphExec

/-- A response. -/
structure Response where
  /-- The data, if the request was run. -/
  data? : Option Json
  /-- The errors. -/
  errors : List ExecutionError

namespace Response

/-- The response to a request that cannot be run. -/
def ofRequestError (error : RequestError) : Response :=
  ⟨none, [{ message := error.message, locations := error.locations }]⟩

/-- Whether there are no errors. -/
def isOk (response : Response) : Bool :=
  response.errors.isEmpty

/-- A response as JSON; what it does not have is left out. -/
def toJson (response : Response) : Json :=
  .object <|
    (match response.data? with
      | some data => [("data", data)]
      | none => [])
    ++ (if response.errors.isEmpty then []
        else [("errors", .array (response.errors.map ExecutionError.toJson))])

end Response

end GraphExec
