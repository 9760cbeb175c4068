import LayeredConfig.Request
import LayeredConfig.Structure

/-!
# Failures

What can go wrong between a request and its document.
-/

namespace LayeredConfig

/-- Why a request has no answer. -/
inductive Failure where
  | invalidRequest (problem : Request.Problem)
  | invalidKey (key : Structure.InvalidKey)
  /-- A provider failed; its causes run from the outermost one inwards. -/
  | retrieval (source : String) (causes : List String)
  /-- No properties were found where some were required. -/
  | notFound (request : Request)
  deriving DecidableEq

/-- The wording of a failure. -/
def Failure.message : Failure → String
  | .invalidRequest problem => "invalid request: " ++ problem.message
  | .invalidKey key => key.message
  | .retrieval source causes =>
    "error retrieving configuration for " ++ source ++ ": " ++ ": ".intercalate causes
  | .notFound request =>
    "environment not found: no property sources for name=" ++ request.application ++
      " profiles=" ++ request.profile ++ " label=" ++ request.labelText

end LayeredConfig
