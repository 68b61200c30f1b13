import LeadSheet.Document.Read
import LeadSheet.Document.Write
import LeadSheet.Text.Utf8

/-!
# Project files

A project file holds the text of a score's document in UTF-8. Bytes that are not UTF-8 are replaced
before the text is read.
-/

namespace LeadSheet.Document

/-- The bytes of a score's project file. -/
def fileBytes (s : Score Float) : List UInt8 := Text.Utf8.encode (text s defaultLayout).toList

/-- Loads a score from the bytes of a project file. -/
def loadFile (options : LoadOptions) (bytes : List UInt8) : Loaded :=
  loadText Schema.Registry.standard options (Text.Utf8.decode bytes)

end LeadSheet.Document
