/-! # Kinds of streams

What a record holds is told by the kind of its stream. Every kind has a number on the volume and
a name in listings; a few questions about kinds decide how a record is handled.
-/
namespace BackupVolume

inductive StreamKind where
  | unixAttributes
  | fileData
  | md5Digest
  | gzipData
  | unixAttributesEx
  | sparseData
  | sparseGzipData
  | programNames
  | programData
  | sha1Digest
  | win32Data
  | win32GzipData
  | macosForkData
  | hfsplusAttributes
  | unixAccessAcl
  | unixDefaultAcl
  | sha256Digest
  | sha512Digest
  | signedDigest
  | encryptedFileData
  | encryptedWin32Data
  | encryptedSessionData
  | encryptedFileGzipData
  | encryptedWin32GzipData
  | encryptedMacosForkData
  | pluginName
  | pluginData
  | restoreObject
  | compressedData
  | sparseCompressedData
  | win32CompressedData
  | encryptedFileCompressedData
  | encryptedWin32CompressedData
  | unixAttributeUpdate
  | pluginObject
  | pluginMetaBlob
  | pluginMetaCatalog
  deriving DecidableEq

namespace StreamKind

def all : List StreamKind :=
  [unixAttributes, fileData, md5Digest, gzipData, unixAttributesEx, sparseData, sparseGzipData,
    programNames, programData, sha1Digest, win32Data, win32GzipData, macosForkData,
    hfsplusAttributes, unixAccessAcl, unixDefaultAcl, sha256Digest, sha512Digest, signedDigest,
    encryptedFileData, encryptedWin32Data, encryptedSessionData, encryptedFileGzipData,
    encryptedWin32GzipData, encryptedMacosForkData, pluginName, pluginData, restoreObject,
    compressedData, sparseCompressedData, win32CompressedData, encryptedFileCompressedData,
    encryptedWin32CompressedData, unixAttributeUpdate, pluginObject, pluginMetaBlob,
    pluginMetaCatalog]

def code : StreamKind → Nat
  | unixAttributes => 1
  | fileData => 2
  | md5Digest => 3
  | gzipData => 4
  | unixAttributesEx => 5
  | sparseData => 6
  | sparseGzipData => 7
  | programNames => 8
  | programData => 9
  | sha1Digest => 10
  | win32Data => 11
  | win32GzipData => 12
  | macosForkData => 13
  | hfsplusAttributes => 14
  | unixAccessAcl => 15
  | unixDefaultAcl => 16
  | sha256Digest => 17
  | sha512Digest => 18
  | signedDigest => 19
  | encryptedFileData => 20
  | encryptedWin32Data => 21
  | encryptedSessionData => 22
  | encryptedFileGzipData => 23
  | encryptedWin32GzipData => 24
  | encryptedMacosForkData => 25
  | pluginName => 26
  | pluginData => 27
  | restoreObject => 28
  | compressedData => 29
  | sparseCompressedData => 30
  | win32CompressedData => 31
  | encryptedFileCompressedData => 32
  | encryptedWin32CompressedData => 33
  | unixAttributeUpdate => 35
  | pluginObject => 36
  | pluginMetaBlob => 37
  | pluginMetaCatalog => 38

def ofCode? (n : Nat) : Option StreamKind := all.find? fun k => k.code == n

def name : StreamKind → String
  | unixAttributes => "UATTR"
  | fileData => "DATA"
  | md5Digest => "MD5"
  | gzipData => "GZIP"
  | unixAttributesEx => "UNIX-ATTR-EX"
  | sparseData => "SPARSE-DATA"
  | sparseGzipData => "SPARSE-GZIP"
  | programNames => "PROG-NAMES"
  | programData => "PROG-DATA"
  | sha1Digest => "SHA1"
  | win32Data => "WIN32-DATA"
  | win32GzipData => "WIN32-GZIP"
  | macosForkData => "MACOS-RSRC"
  | hfsplusAttributes => "HFSPLUS-ATTR"
  | unixAccessAcl => "ACL"
  | unixDefaultAcl => "DEFAULT-ACL"
  | sha256Digest => "SHA256"
  | sha512Digest => "SHA512"
  | signedDigest => "SIGNED-DIGEST"
  | encryptedFileData => "ENCRYPTED-FILE"
  | encryptedWin32Data => "ENCRYPTED-WIN32-DATA"
  | encryptedSessionData => "ENCRYPTED-SESSION-DATA"
  | encryptedFileGzipData => "ENCRYPTED-GZIP"
  | encryptedWin32GzipData => "ENCRYPTED-WIN32-GZIP"
  | encryptedMacosForkData => "ENCRYPTED-MACOS-RSRC"
  | pluginName => "PLUGIN-NAME"
  | pluginData => "PLUGIN-DATA"
  | restoreObject => "RESTORE-OBJECT"
  | compressedData => "COMPRESSED"
  | sparseCompressedData => "SPARSE-COMPRESSED"
  | win32CompressedData => "WIN32-COMPRESSED"
  | encryptedFileCompressedData => "ENCRYPTED-COMPRESSED"
  | encryptedWin32CompressedData => "ENCRYPTED-WIN32-COMPRESSED"
  | unixAttributeUpdate => "UNIX-ATTR-UPDATE"
  | pluginObject => "PLUGIN-OBJECT"
  | pluginMetaBlob => "PLUGIN-META-BLOB"
  | pluginMetaCatalog => "PLUGIN-META-CATALOG"

def isAttributes : StreamKind → Bool
  | unixAttributes | unixAttributesEx | unixAttributeUpdate => true
  | _ => false

def isDigest : StreamKind → Bool
  | md5Digest | sha1Digest | sha256Digest | sha512Digest => true
  | _ => false

def isFileData : StreamKind → Bool
  | fileData | sparseData | win32Data | gzipData | sparseGzipData | win32GzipData
  | compressedData | sparseCompressedData | win32CompressedData => true
  | _ => false

/-- The payload is file content that cannot be decoded here. -/
def isOpaqueFileData : StreamKind → Bool
  | encryptedFileData | encryptedWin32Data | encryptedFileGzipData | encryptedWin32GzipData
  | encryptedFileCompressedData | encryptedWin32CompressedData => true
  | _ => false

/-- The payload of a sparse kind always starts with a file address. -/
def isSparse : StreamKind → Bool
  | sparseData | sparseGzipData | sparseCompressedData => true
  | _ => false

theorem mem_all (k : StreamKind) : k ∈ all := by cases k <;> decide

theorem ofCode?_code (k : StreamKind) : ofCode? k.code = some k := by cases k <;> rfl

theorem code_lt (k : StreamKind) : k.code < 2048 := by cases k <;> decide

end StreamKind
end BackupVolume
