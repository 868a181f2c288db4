import PixelShader.CommandLine.Path
import PixelShader.Png.Decode
import PixelShader.Text.Basic
/-!
# Files and pictures

What the command asks of the world around it is to read and to write files.  The format of a picture goes by the
extension of its file's name, and PNG is the only one that is read and written.
-/
namespace PixelShader.CommandLine

/-! ## What can be wrong with a file -/

inductive FileFault where
  | notFound
  | notDirectory
  | isDirectory
  | nameTooLong
  | other (text : String)
  deriving DecidableEq, Inhabited

def FileFault.message : FileFault → String
  | notFound => "No such file or directory (os error 2)"
  | notDirectory => "Not a directory (os error 20)"
  | isDirectory => "Is a directory (os error 21)"
  | nameTooLong => "File name too long (os error 36)"
  | other text => text

/-! ## Formats -/

inductive PictureFormat where
  | avif | bmp | dds | farbfeld | gif | hdr | ico | jpeg | openExr | png | pnm | qoi | tga | tiff | webP
  deriving DecidableEq, Inhabited

namespace PictureFormat

def name : PictureFormat → String
  | avif => "Avif"
  | bmp => "Bmp"
  | dds => "Dds"
  | farbfeld => "Farbfeld"
  | gif => "Gif"
  | hdr => "Hdr"
  | ico => "Ico"
  | jpeg => "Jpeg"
  | openExr => "OpenExr"
  | png => "Png"
  | pnm => "Pnm"
  | qoi => "Qoi"
  | tga => "Tga"
  | tiff => "Tiff"
  | webP => "WebP"

def extensions : List (String × PictureFormat) :=
  [("avif", avif), ("bmp", bmp), ("dds", dds), ("ff", farbfeld), ("gif", gif), ("hdr", hdr), ("ico", ico), ("jpg", jpeg),
    ("jpeg", jpeg), ("jfif", jpeg), ("exr", openExr), ("png", png), ("apng", png), ("pbm", pnm), ("pam", pnm),
    ("ppm", pnm), ("pgm", pnm), ("pnm", pnm), ("qoi", qoi), ("tga", tga), ("tif", tiff), ("tiff", tiff), ("webp", webP)]

def ofExtension? (extension : String) : Option PictureFormat :=
  extensions.lookup (String.ofList (extension.toList.map Char.toLower))

end PictureFormat

inductive PictureFault where
  | file (cause : FileFault)
  | noFormat
  | unknownExtension (extension : String)
  | unreadFormat (format : PictureFormat)
  | unwrittenFormat (format : PictureFormat)
  | malformed (cause : Png.DecodeFault)
  deriving DecidableEq, Inhabited

def PictureFault.messages : PictureFault → List String
  | file cause => [cause.message]
  | noFormat => ["The image format could not be determined"]
  | unknownExtension extension =>
    ["The file extension `." ++ Text.quote extension.toList ++ "` was not recognized as an image format"]
  | unreadFormat format => ["The image format " ++ format.name ++ " is not supported"]
  | unwrittenFormat format => ["The image format `" ++ format.name ++ "` is not supported"]
  | malformed cause => cause.messages

def formatOf (extension : String) : Except PictureFault PictureFormat :=
  match PictureFormat.ofExtension? extension with
  | none => .error (.unknownExtension extension)
  | some format => .ok format

/-! ## Reading and writing -/

def checkRead (path : String) : Except PictureFault Unit :=
  match extension? path with
  | none | some "" => .error .noFormat
  | some extension => do
    let format ← formatOf extension
    if format ≠ .png then throw (.unreadFormat format)

/-- The picture that opening and reading a file brings.  A directory can be opened, so the name is judged before it
shows. -/
def readPicture (path : String) : Except FileFault ByteArray → Except PictureFault Picture
  | .error .isDirectory => do checkRead path; throw (.file .isDirectory)
  | .error fault => .error (.file fault)
  | .ok content => do checkRead path; (Png.decode content).mapError PictureFault.malformed

/-- The format that a picture is to be written in.  It is known before the file is made. -/
def formatToWrite (path : String) : Except PictureFault PictureFormat :=
  match extension? path with
  | none => .error .noFormat
  | some extension => formatOf extension

/-- Whether a picture can be written.  This is judged when the file is already there, and empty. -/
def checkWrite (format : PictureFormat) : Except PictureFault Unit :=
  if format = .png then .ok () else .error (.unwrittenFormat format)

/-! ## The world around -/

structure Files (m : Type → Type) where
  read : String → m (Except FileFault ByteArray)
  write : String → ByteArray → m (Except FileFault Unit)

namespace Files
variable {m : Type → Type} [Monad m] (files : Files m)

def loadPicture (path : String) : m (Except PictureFault Picture) := do
  return readPicture path (← files.read path)

/-- Saves a picture.  In a format that cannot be written the file stays empty. -/
def savePicture (path : String) (p : Picture) : m (Except PictureFault Unit) := do
  match formatToWrite path with
  | .error fault => return .error fault
  | .ok format =>
    match ← files.write path (if format = .png then Png.encode p else .empty) with
    | .error fault => return .error (.file fault)
    | .ok _ => return checkWrite format

end Files
end PixelShader.CommandLine
