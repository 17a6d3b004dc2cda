/-!
What the catalogs hold: scenarios with sample queries, functions, and concepts.
-/
namespace PromqlGuide

/-- A query to try, with a short label and perhaps a longer explanation. -/
structure SampleQuery where
  query : String
  description : String
  explanation : Option String
  deriving Repr, DecidableEq

/-- A group of sample queries about one theme. -/
structure Scenario where
  id : String
  title : String
  description : String
  objectives : List String
  samples : List SampleQuery
  deriving Repr, DecidableEq

/-- How to use one function or aggregation operator. -/
structure FunctionEntry where
  name : String
  category : String
  signature : String
  description : String
  sample : String
  explanation : String
  tips : List String
  deriving Repr, DecidableEq

/-- A short lesson about one concept: what it is, when to use it, and an illustration with a
query. -/
structure Concept where
  id : String
  title : String
  description : String
  meaning : String
  usage : String
  illustration : String
  query : String
  tips : List String
  deriving Repr, DecidableEq

end PromqlGuide
