import DocumentApi.Naming.Case
import DocumentApi.Naming.Inflection

/-!
# Operation names

* `OperationNames.ofModel`: the six operations of a model.
* `EmbeddedNames.ofField`: the six operations of an embedded array and the argument that names the
  parent document.
-/

namespace DocumentApi

/-- The names of a model's operations. -/
structure OperationNames where
  create : String
  update : String
  remove : String
  findOne : String
  findAll : String
  paginate : String
deriving DecidableEq, Repr

def OperationNames.ofModel (model : String) : OperationNames :=
  let pascal := toPascal model
  let many := plural pascal
  { create := "create" ++ pascal
    update := "update" ++ pascal
    remove := "remove" ++ pascal
    findOne := lowerText model
    findAll := "all" ++ many
    paginate := "paginate" ++ many }

/-- The names of an embedded array's operations. -/
structure EmbeddedNames where
  parentIdArg : String
  create : String
  update : String
  updateOne : String
  remove : String
  getOne : String
  getAll : String
deriving DecidableEq, Repr

def EmbeddedNames.ofField (parent field : String) : EmbeddedNames :=
  let parentPascal := toPascal parent
  let parentCamel := toCamel parent
  let many := toPascal field
  let one := toPascal (singular field)
  { parentIdArg := parentCamel ++ "Id"
    create := "create" ++ parentPascal ++ one
    update := "update" ++ parentPascal ++ many
    updateOne := "update" ++ parentPascal ++ one
    remove := "remove" ++ parentPascal ++ many
    getOne := parentCamel ++ one
    getAll := parentCamel ++ many }

end DocumentApi
