/-! Generated files: contents by relative path, ascending by path. -/
namespace Stencil

abbrev FileMap := List (String × String)

namespace FileMap

def insert (files : FileMap) (path content : String) : FileMap :=
  match files with
  | [] => [(path, content)]
  | f :: rest =>
    if path < f.1 then (path, content) :: f :: rest
    else if f.1 == path then (path, content) :: rest
    else f :: insert rest path content

def ofList (files : List (String × String)) : FileMap :=
  files.foldl (fun map f => map.insert f.1 f.2) []

end FileMap

end Stencil
